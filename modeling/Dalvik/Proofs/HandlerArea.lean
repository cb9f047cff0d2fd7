import Mathlib
import Dalvik.Proofs.Forms

/-!
# Handler areas

A try item names its handler list by the offset at which the list starts in the handler area. The
lists have no fixed length, and their numbers need not have the shortest form. `Unresolved` is a
code item in which the try items still hold offsets, and `Unresolved.Form` says which bytes are one,
without any reference to reading. `HandlerArea.offsets` are the places where the lists start.

Reading a code item is reading its parts and then resolving the offsets (`read_eq_readParts`), and
the parts are read from forms of unresolved items and from nothing else (`reads_parts`,
`unresolved_of_readParts`).
-/

namespace Dalvik
namespace CodeItem

open Bytes Reader

/-! ## Forms -/

/-- A typed handler: forms of the numbers of its type and of its address. -/
def HandlerForm (h : CatchHandler) (bytes : List UInt8) : Prop :=
  ∃ typeIdx addr, NumberForm h.typeIdx typeIdx ∧ NumberForm h.addr addr ∧ bytes = typeIdx ++ addr

/-- The size that a handler list starts with: the number of its typed handlers, negated if an
address for all other exceptions comes last. -/
def HandlerList.size (l : HandlerList) : ℤ :=
  match l.catchAll with
  | none => l.typed.length
  | some _ => -l.typed.length

/-- A handler list. Its size is positive exactly if no address for all other exceptions comes
last. -/
inductive HandlerList.Form (l : HandlerList) : List UInt8 → Prop where
  | typed {size : List UInt8} {pairs : List (List UInt8)} (hall : l.catchAll = none)
      (hpos : 0 < l.size) (hmax : l.typed.length ≤ 65536) (hsize : SizeForm l.size size)
      (hpairs : List.Forall₂ HandlerForm l.typed pairs) : Form l (size ++ pairs.flatten)
  | catchAll {size final : List UInt8} {pairs : List (List UInt8)} {addr : UInt32}
      (hall : l.catchAll = some addr) (hmax : l.typed.length ≤ 65536)
      (hsize : SizeForm l.size size) (hpairs : List.Forall₂ HandlerForm l.typed pairs)
      (hfinal : NumberForm addr final) : Form l (size ++ (pairs.flatten ++ final))

/-- The bytes behind the try items: the number of handler lists, and the lists one behind the
other. -/
structure HandlerArea where
  /-- The number of lists that is declared. -/
  count : UInt32
  number : List UInt8
  lists : List HandlerList
  chunks : List (List UInt8)
  number_form : NumberForm count number
  length_lists : lists.length = count.toNat
  chunk_forms : List.Forall₂ HandlerList.Form lists chunks

namespace HandlerArea

def bytes (a : HandlerArea) : List UInt8 := a.number ++ a.chunks.flatten

/-- The offsets in the area at which the lists start. -/
def offsets (a : HandlerArea) : List ℕ := CodeItem.offsets a.number.length a.chunks

/-- The handlers of each list, with its offset. -/
def placed (a : HandlerArea) : List (ℕ × List CatchHandler) :=
  a.offsets.zip (a.lists.map HandlerList.handlers)

end HandlerArea

/-- A code item whose try items, of start, number of units and offset, are not resolved yet. -/
structure Unresolved where
  registers : UInt16
  ins : UInt16
  outs : UInt16
  /-- The number of try items that is declared. -/
  tryCount : UInt16
  debugInfo : UInt32
  unitCount : UInt32
  units : List UInt16
  tries : List (UInt32 × UInt16 × UInt16)
  /-- There is a handler area if there are try items. -/
  area : Option HandlerArea
  length_units : units.length = unitCount.toNat
  length_tries : tries.length = tryCount.toNat
  area_isSome : area.isSome = true ↔ tries ≠ []

/-- The bytes of a try item. -/
def tryItemBytes : UInt32 × UInt16 × UInt16 → List UInt8
  | (start, count, offset) => ofUInt32 start ++ (ofUInt16 count ++ ofUInt16 offset)

namespace Unresolved

def header (u : Unresolved) : List UInt8 :=
  ofUInt16 u.registers ++ (ofUInt16 u.ins ++ (ofUInt16 u.outs ++ (ofUInt16 u.tryCount ++
    (ofUInt32 u.debugInfo ++ ofUInt32 u.unitCount))))

/-- The bytes are a form of the item. The padding can be any two bytes. -/
def Form (u : Unresolved) (bytes : List UInt8) : Prop :=
  ∃ padding : List UInt8,
    padding.length = (if u.tries ≠ [] ∧ u.units.length % 2 = 1 then 2 else 0) ∧
    bytes = u.header ++ (ofUnits u.units ++ (padding ++ (u.tries.flatMap tryItemBytes ++
      (u.area.map HandlerArea.bytes).getD [])))

def lists (u : Unresolved) : List HandlerList := (u.area.map HandlerArea.lists).getD []

/-- The offsets at which handler lists start. -/
def offsets (u : Unresolved) : List ℕ := (u.area.map HandlerArea.offsets).getD []

def placed (u : Unresolved) : List (ℕ × List CatchHandler) :=
  (u.area.map HandlerArea.placed).getD []

end Unresolved

/-! ## Readers of the parts -/

/-- A typed handler is read in each of its forms. -/
theorem accepts_readHandler (i : ℕ) : Accepts (readHandler i) HandlerForm where
  reads := by
    rintro h _ ⟨typeIdx, addr, htype, haddr, rfl⟩ pos
    exact (accepts_uleb128.reads htype pos).bind
      ((accepts_uleb128.reads haddr _).bind_nil (Reads.pure _))
  form := by
    intro c h c' hread
    obtain ⟨typeIdx, front, c₁, htype, hpast, hread⟩ := accepts_uleb128.bind_form hread
    obtain ⟨addr, back, c₂, haddr, hpast', hread⟩ := accepts_uleb128.bind_form hread
    cases hread
    exact ⟨front ++ back, ⟨front, back, htype, haddr, rfl⟩, hpast.append hpast'⟩

/-- A try item has one form of eight bytes. -/
theorem accepts_readTryItem (i : ℕ) :
    Accepts (readTryItem i) fun t bytes => bytes = tryItemBytes t where
  reads := by
    rintro ⟨start, count, offset⟩ _ rfl pos
    refine Reads.mapFault ?_ _
    exact (reads_u4 start pos).bind ((reads_u2 count _).bind
      ((reads_u2 offset _).bind_nil (Reads.pure _)))
  form := by
    intro c t c' h
    have h := mapFault_eq_ok h
    obtain ⟨start, _, c₁, rfl, hpast₁, h⟩ := accepts_u4.bind_form h
    obtain ⟨count, _, c₂, rfl, hpast₂, h⟩ := accepts_u2.bind_form h
    obtain ⟨offset, _, c₃, rfl, hpast₃, h⟩ := accepts_u2.bind_form h
    cases h
    exact ⟨_, rfl, hpast₁.append (hpast₂.append hpast₃)⟩

/-- The typed handlers of a list stand one behind the other. -/
theorem accepts_readHandlers (n : ℕ) :
    Accepts (collect readHandler 0 n #[]) fun typed bytes => typed.size = n ∧
      ∃ pairs, List.Forall₂ HandlerForm typed.toList pairs ∧ bytes = pairs.flatten :=
  .collect accepts_readHandler 0 n

/-- Every form of a handler list is read. -/
theorem reads_handlerListForm {l : HandlerList} {bytes : List UInt8} (hform : l.Form bytes)
    (index pos : ℕ) : Reads (readHandlerList index) pos bytes l.handlers := by
  have habs : l.size.natAbs = l.typed.length := by
    rw [HandlerList.size]
    split <;> omega
  cases hform with
  | @typed size pairs hall hpos hmax hsize hpairs =>
    have hfits : ¬ l.typed.length > maxHandlers := Nat.not_lt.mpr hmax
    have htyped := (accepts_readHandlers l.typed.length).reads (a := l.typed.toArray)
      ⟨rfl, pairs, hpairs, rfl⟩
    refine ((accepts_sleb128.reads hsize pos).mapFault _).bind ?_
    rw [habs, if_neg hfits]
    refine ((htyped _).mapFault _).bind_nil ?_
    rw [if_neg (by omega), HandlerList.handlers, hall]
    simpa using Reads.pure l.typed
  | @catchAll size final pairs addr hall hmax hsize hpairs hfinal =>
    have hle : l.size ≤ 0 := by
      simp only [HandlerList.size, hall]
      omega
    have hfits : ¬ l.typed.length > maxHandlers := Nat.not_lt.mpr hmax
    have htyped := (accepts_readHandlers l.typed.length).reads (a := l.typed.toArray)
      ⟨rfl, pairs, hpairs, rfl⟩
    refine ((accepts_sleb128.reads hsize pos).mapFault _).bind ?_
    rw [habs, if_neg hfits]
    refine ((htyped _).mapFault _).bind ?_
    rw [if_pos hle, HandlerList.handlers, hall]
    refine ((accepts_uleb128.reads hfinal _).mapFault _).bind_nil ?_
    simpa using Reads.pure (l.typed ++ [⟨CatchHandler.noIndex, addr⟩])

/-- A handler list that was read has a form. -/
theorem handlerListForm_of_read {index : ℕ} {c c' : Cursor} {hs : List CatchHandler}
    (h : readHandlerList index c = .ok (hs, c')) :
    ∃ (l : HandlerList) (bytes : List UInt8), l.Form bytes ∧ hs = l.handlers ∧ c.Past bytes c' := by
  obtain ⟨size, sizeBytes, c₁, hsize, hpast₁, h⟩ := (accepts_sleb128.mapFault _).bind_form h
  by_cases hmany : size.natAbs > maxHandlers
  · rw [if_pos hmany] at h
    obtain ⟨_, _, hthrow, -⟩ := bind_eq_ok h
    cases hthrow
  rw [if_neg hmany] at h
  have hfits : size.natAbs ≤ 65536 := Nat.not_lt.mp hmany
  obtain ⟨typed, _, c₂, ⟨hcount, pairs, hpairs, rfl⟩, hpast₂, h⟩ :=
    ((accepts_readHandlers size.natAbs).mapFault _).bind_form h
  have hlen : typed.toList.length = size.natAbs := by rw [Array.length_toList, hcount]
  -- the sign of the size tells whether an address for all other exceptions comes last
  split_ifs at h with hsign
  · obtain ⟨addr, final, c₃, hfinal, hpast₃, h⟩ := (accepts_uleb128.mapFault _).bind_form h
    cases h
    have hlsize : HandlerList.size ⟨typed.toList, some addr⟩ = size := by
      show -(typed.toList.length : ℤ) = size
      omega
    refine ⟨⟨typed.toList, some addr⟩, _, .catchAll rfl (hlen.trans_le hfits) ?_ hpairs hfinal, ?_,
      hpast₁.append (hpast₂.append hpast₃)⟩
    · rwa [hlsize]
    · simp [HandlerList.handlers]
  · cases h
    have hlsize : HandlerList.size ⟨typed.toList, none⟩ = size := by
      show (typed.toList.length : ℤ) = size
      omega
    refine ⟨⟨typed.toList, none⟩, _, .typed rfl ?_ (hlen.trans_le hfits) ?_ hpairs, ?_,
      hpast₁.append hpast₂⟩
    · omega
    · rwa [hlsize]
    · simp [HandlerList.handlers]

/-! ## Handler lists and their offsets -/

/-- A list of handlers takes a byte at least. -/
theorem HandlerList.Form.length_pos {l : HandlerList} {bytes : List UInt8} (h : l.Form bytes) :
    0 < bytes.length := by
  cases h with
  | typed _ _ _ hsize _ =>
    rw [List.length_append]
    exact Nat.add_pos_left hsize.length_pos _
  | catchAll _ _ hsize _ _ =>
    rw [List.length_append]
    exact Nat.add_pos_left hsize.length_pos _

/-- The lists are read one by one, each with the offset at which it starts. -/
theorem reads_placedLists {lists : List HandlerList} {chunks : List (List UInt8)}
    (h : List.Forall₂ HandlerList.Form lists chunks) (areaStart i off : ℕ) :
    ReadsEach (readListAt areaStart) i (areaStart + off) chunks
      ((offsets off chunks).zip (lists.map HandlerList.handlers)) := by
  induction h generalizing i off with
  | nil => exact .nil i _
  | cons hfirst _ ih =>
    refine .cons (Reads.get_bind fun c hc => ?_) ?_
    · rw [hc, Nat.add_sub_cancel_left]
      exact (reads_handlerListForm hfirst i _).bind_nil (Reads.pure _)
    · rw [Nat.add_assoc]
      exact ih _ _

/-- Lists that were read have forms, which stand one behind the other at the offsets that were
noted. -/
theorem placedLists_of_collect {areaStart i n : ℕ} {acc xs : Array (ℕ × List CatchHandler)}
    {c c' : Cursor} (h : collect (readListAt areaStart) i n acc c = .ok (xs, c'))
    (hstart : areaStart ≤ c.pos) :
    ∃ (lists : List HandlerList) (chunks : List (List UInt8)), lists.length = n ∧
      List.Forall₂ HandlerList.Form lists chunks ∧ c.Past chunks.flatten c' ∧
      xs = acc ++ ((offsets (c.pos - areaStart) chunks).zip
        (lists.map HandlerList.handlers)).toArray := by
  induction n generalizing i acc c with
  | zero =>
    cases h
    exact ⟨[], [], rfl, .nil, .nil _, by simp [offsets]⟩
  | succ n ih =>
    rw [collect_succ] at h
    obtain ⟨_, c₁, hfirst, hrest⟩ := bind_eq_ok h
    obtain ⟨_, _, hget, hfirst⟩ := bind_eq_ok hfirst
    cases hget
    obtain ⟨handlers, _, hlist, hfirst⟩ := bind_eq_ok hfirst
    cases hfirst
    obtain ⟨l, front, hform, rfl, hpast⟩ := handlerListForm_of_read hlist
    have hpos := hpast.2
    obtain ⟨lists, chunks, hlen, hforms, hpast', rfl⟩ := ih hrest (by omega)
    refine ⟨l :: lists, front :: chunks, by rw [List.length_cons, hlen], .cons hform hforms,
      hpast.append hpast', ?_⟩
    -- the next list starts where this one ends
    have hnext : c₁.pos - areaStart = c.pos - areaStart + front.length := by omega
    rw [hnext, offsets, List.map_cons, List.zip_cons_cons]
    simp

/-! ## Reading before resolving -/

/-- Try items, of start, number of units and offset, and handler lists with their offsets. -/
abbrev Tables := List (UInt32 × UInt16 × UInt16) × List (ℕ × List CatchHandler)

/-- The try blocks and handler lists that unresolved tables stand for. -/
def resolveTables (tables : Tables) : Except Fault (List TryBlock × List (List CatchHandler)) := do
  let tries ← resolveTries tables.2 0 tables.1 #[]
  if TryBlock.sorted tries then return (tries, tables.2.map (·.2)) else throw .triesOrder

/-- What is read of a code item before its try items are resolved. -/
structure Parts where
  registers : UInt16
  ins : UInt16
  outs : UInt16
  debugInfo : UInt32
  code : Code
  tables : Tables

/-- The code item of `size` bytes, with its try items resolved. -/
def Parts.resolve (p : Parts) (size : ℕ) : Except Fault CodeItem := do
  let (tries, handlerLists) ← resolveTables p.tables
  return { registers := p.registers, ins := p.ins, outs := p.outs, debugInfo := p.debugInfo,
           code := p.code, tries, handlerLists, size }

/-- The tables behind the padding. -/
def readArea (tryCount : ℕ) : Reader Fault Tables := do
  let items ← collect readTryItem 0 tryCount #[]
  let areaStart := (← get).pos
  let listCount ← located .listCount uleb128
  let lists ← collect (readListAt areaStart) 0 listCount.toNat #[]
  return (items.toList, lists.toList)

/-- The tables behind the code units. -/
def readPadded (units tryCount : ℕ) : Reader Fault Tables :=
  if units % 2 ≠ 0 then located .padding u2 >>= fun _ => readArea tryCount else readArea tryCount

/-- The tables of a code item, which has none without try items. -/
def readTables (units : ℕ) (tryCount : UInt16) : Reader Fault Tables :=
  if tryCount = 0 then pure ([], []) else readPadded units tryCount.toNat

/-- The parts of a code item. -/
def readParts : Reader Fault Parts := do
  let registers ← located .header u2
  let ins ← located .header u2
  let outs ← located .header u2
  let tryCount ← located .header u2
  let debugInfo ← located .header u4
  let units ← located .header u4
  located .units (need (units.toNat * 2))
  let code ← located .units (collect (fun _ => u2) 0 units.toNat #[])
  let tables ← readTables units.toNat tryCount
  return { registers, ins, outs, debugInfo, code, tables }

/-- The table is read first and its references are resolved afterwards. -/
theorem readTable_eq_readArea (tryCount : ℕ) :
    readTable tryCount = readArea tryCount >>= fun tables => liftM (resolveTables tables) := by
  simp only [readTable, readArea, resolveTables, bind_assoc, pure_bind, liftM_bind]
  refine bind_congr fun items => bind_congr fun c => bind_congr fun listCount =>
    bind_congr fun lists => bind_congr fun tries => ?_
  split_ifs <;> rfl

/-- The table is read first, behind its padding, and its references are resolved afterwards. -/
theorem readTries_eq_readPadded (units tryCount : ℕ) :
    readTries units tryCount
      = readPadded units tryCount >>= fun tables => liftM (resolveTables tables) := by
  rw [readTries_eq, readPadded, readTable_eq_readArea]
  split_ifs
  · rw [bind_assoc]
  · rfl

/-- A code item is read as a whole before any try item is resolved. -/
theorem read_eq_readParts :
    read = readParts >>= fun p => get >>= fun c => liftM (p.resolve c.pos) := by
  unfold read readParts
  simp only [bind_assoc]
  refine bind_congr fun registers => bind_congr fun ins => bind_congr fun outs =>
    bind_congr fun tryCount => bind_congr fun debugInfo => bind_congr fun units =>
    bind_congr fun _ => bind_congr fun code => ?_
  rw [readTables]
  split_ifs with hnone
  · rfl
  · rw [readTries_eq_readPadded, bind_assoc]
    refine bind_congr fun tables => ?_
    rw [pure_bind]
    -- resolving takes no bytes, so the position is the same before it
    funext c
    simp only [Parts.resolve]
    cases resolveTables tables <;> rfl

/-! ## Forms of all parts -/

/-- Asking for bytes does not move the cursor. -/
theorem need_eq_ok {n : ℕ} {c c' : Cursor} (h : need n c = .ok ((), c')) : c = c' := by
  rw [need] at h
  split_ifs at h
  cases h
  rfl

/-- The area has as many lists as it declares. -/
theorem HandlerArea.length_placed (a : HandlerArea) : a.placed.length = a.count.toNat := by
  rw [HandlerArea.placed, List.length_zip, HandlerArea.offsets, length_offsets, List.length_map,
    ← a.chunk_forms.length_eq, min_self, a.length_lists]

/-- A counted run of try items is read in its one form. -/
theorem accepts_tryItems (n : ℕ) :
    Accepts (collect readTryItem 0 n #[]) fun items bytes => items.size = n ∧
      bytes = items.toList.flatMap tryItemBytes :=
  .collect_flatMap accepts_readTryItem 0 n

/-- Try items and a handler area are read with the offsets of the lists in the area. -/
theorem accepts_readArea (n : ℕ) : Accepts (readArea n) fun tables bytes =>
    ∃ area : HandlerArea, tables.1.length = n ∧ tables.2 = area.placed ∧
      bytes = tables.1.flatMap tryItemBytes ++ area.bytes where
  reads := by
    rintro ⟨tries, _⟩ _ ⟨area, hlen, rfl, rfl⟩ pos
    have hitems := (accepts_tryItems n).reads (a := tries.toArray) ⟨hlen, rfl⟩ pos
    have hlists := (reads_placedLists area.chunk_forms (pos + (tries.flatMap tryItemBytes).length) 0
      area.number.length).collect #[]
    rw [Array.empty_append] at hlists
    refine hitems.bind (Reads.get_bind fun c hc => ?_)
    refine ((accepts_uleb128.reads area.number_form _).mapFault _).bind ?_
    rw [hc, ← area.length_placed]
    exact hlists.bind_nil (Reads.pure _)
  form := by
    intro c tables c' h
    obtain ⟨items, _, c₁, ⟨hlen, rfl⟩, hpast₁, h⟩ := (accepts_tryItems n).bind_form h
    obtain ⟨_, _, hget, h⟩ := bind_eq_ok h
    cases hget
    obtain ⟨count, number, c₂, hnumber, hpast₂, h⟩ := (accepts_uleb128.mapFault _).bind_form h
    obtain ⟨placed, c₃, hplaced, h⟩ := bind_eq_ok h
    cases h
    have hstart : c₂.pos - c₁.pos = number.length := by
      rw [hpast₂.2, Nat.add_sub_cancel_left]
    obtain ⟨lists, chunks, hlists, hforms, hpast₃, rfl⟩ :=
      placedLists_of_collect hplaced (by rw [hpast₂.2]; omega)
    rw [hstart, Array.empty_append]
    exact ⟨_, ⟨⟨count, number, lists, chunks, hnumber, hlists, hforms⟩, hlen, rfl, rfl⟩,
      hpast₁.append (hpast₂.append hpast₃)⟩

/-- The padding, the try items and the handler area are read one after the other. -/
theorem accepts_readPadded (units n : ℕ) : Accepts (readPadded units n) fun tables bytes =>
    ∃ (padding : List UInt8) (area : HandlerArea),
      padding.length = (if units % 2 = 1 then 2 else 0) ∧ tables.1.length = n ∧
      tables.2 = area.placed ∧
      bytes = padding ++ (tables.1.flatMap tryItemBytes ++ area.bytes) where
  reads := by
    rintro tables _ ⟨padding, area, hpadding, hlen, hplaced, rfl⟩ pos
    have harea := (accepts_readArea n).reads ⟨area, hlen, hplaced, rfl⟩
    rw [readPadded]
    split_ifs at hpadding with hodd
    · obtain ⟨v, hv⟩ := reads_padding hpadding pos
      rw [if_pos (by omega)]
      exact (hv.mapFault _).bind (harea _)
    · rw [List.eq_nil_of_length_eq_zero hpadding, if_neg (by omega), List.nil_append]
      exact harea pos
  form := by
    intro c tables c' h
    rw [readPadded] at h
    split_ifs at h with hodd
    · obtain ⟨v, _, c₁, rfl, hpast₁, h⟩ := (accepts_u2.mapFault _).bind_form h
      obtain ⟨_, ⟨area, hlen, hplaced, rfl⟩, hpast₂⟩ := (accepts_readArea n).form h
      exact ⟨_, ⟨ofUInt16 v, area, by rw [if_pos (by omega)]; rfl, hlen, hplaced, rfl⟩,
        hpast₁.append hpast₂⟩
    · obtain ⟨_, ⟨area, hlen, hplaced, rfl⟩, hpast⟩ := (accepts_readArea n).form h
      exact ⟨_, ⟨[], area, by rw [if_neg (by omega)]; rfl, hlen, hplaced, rfl⟩, hpast⟩

/-- A body without tries has no tables, and any other has padding, try items and a handler area. -/
theorem accepts_readTables (units : ℕ) (n : UInt16) :
    Accepts (readTables units n) fun tables bytes =>
    ∃ (padding : List UInt8) (area : Option HandlerArea),
      padding.length = (if tables.1 ≠ [] ∧ units % 2 = 1 then 2 else 0) ∧
      tables.1.length = n.toNat ∧ (area.isSome = true ↔ tables.1 ≠ []) ∧
      tables.2 = (area.map HandlerArea.placed).getD [] ∧
      bytes = padding ++
        (tables.1.flatMap tryItemBytes ++ (area.map HandlerArea.bytes).getD []) where
  reads := by
    rintro ⟨tries, lists⟩ _ ⟨padding, area, hpadding, hlen, harea, rfl, rfl⟩ pos
    dsimp only at hpadding hlen harea ⊢
    rw [readTables]
    split_ifs with hnone
    · obtain rfl : tries = [] := by
        rw [hnone] at hlen
        exact List.eq_nil_of_length_eq_zero hlen
      obtain rfl : area = none := by simpa using harea
      obtain rfl : padding = [] := by simpa using hpadding
      exact Reads.pure _
    · have hpos : 0 < n.toNat := Nat.pos_of_ne_zero fun hzero => hnone (UInt16.toNat_inj.mp hzero)
      have hsome : tries ≠ [] := List.ne_nil_of_length_pos (by omega)
      obtain ⟨area, rfl⟩ := Option.isSome_iff_exists.mp (harea.mpr hsome)
      refine (accepts_readPadded units n.toNat).reads (a := (tries, area.placed))
        ⟨padding, area, ?_, hlen, rfl, rfl⟩ pos
      simpa [hsome] using hpadding
  form := by
    intro c tables c' h
    rw [readTables] at h
    split_ifs at h with hnone
    · cases h
      exact ⟨[], ⟨[], none, by simp, by simp [hnone], by simp, rfl, rfl⟩, .nil c⟩
    · obtain ⟨_, ⟨padding, area, hpadding, hlen, hplaced, rfl⟩, hpast⟩ :=
        (accepts_readPadded _ _).form h
      have hpos : 0 < n.toNat := Nat.pos_of_ne_zero fun hzero => hnone (UInt16.toNat_inj.mp hzero)
      have hsome : tables.1 ≠ [] := List.ne_nil_of_length_pos (by omega)
      refine ⟨_, ⟨padding, some area, ?_, hlen, by simp [hsome], hplaced, rfl⟩, hpast⟩
      simpa [hsome] using hpadding

/-- The parts of an unresolved item. -/
def Unresolved.parts (u : Unresolved) : Parts :=
  ⟨u.registers, u.ins, u.outs, u.debugInfo, u.units.toArray, (u.tries, u.placed)⟩

/-- A form of a code item is read up to its references. -/
theorem reads_parts {u : Unresolved} {bytes : List UInt8} (h : u.Form bytes) (pos : ℕ) :
    Reads readParts pos bytes u.parts := by
  obtain ⟨padding, hpadding, rfl⟩ := h
  have hcode := (Accepts.collect_flatMap (fun _ => accepts_u2) 0 u.unitCount.toNat).reads
    (a := u.units.toArray) ⟨u.length_units, rfl⟩
  rw [u.length_units] at hpadding
  have htables := (accepts_readTables u.unitCount.toNat u.tryCount).reads (a := (u.tries, u.placed))
    ⟨padding, u.area, hpadding, u.length_tries, u.area_isSome, rfl, rfl⟩
  rw [Unresolved.header]
  simp only [List.append_assoc]
  refine ((reads_u2 u.registers _).mapFault _).bind ?_
  refine ((reads_u2 u.ins _).mapFault _).bind ?_
  refine ((reads_u2 u.outs _).mapFault _).bind ?_
  refine ((reads_u2 u.tryCount _).mapFault _).bind ?_
  refine ((reads_u4 u.debugInfo _).mapFault _).bind ?_
  refine ((reads_u4 u.unitCount _).mapFault _).bind ?_
  refine Reads.need_bind ?_ (((hcode _).mapFault _).bind ?_)
  · rw [List.length_append, length_ofUnits, u.length_units]
    omega
  exact (htables _).bind_nil (Reads.pure _)

/-- What is read up to its references is a form of a code item. -/
theorem unresolved_of_readParts {c c' : Cursor} {p : Parts} (h : readParts c = .ok (p, c')) :
    ∃ (u : Unresolved) (bytes : List UInt8), u.Form bytes ∧ p = u.parts ∧ c.Past bytes c' := by
  obtain ⟨registers, _, c₁, rfl, hpast₁, h⟩ := (accepts_u2.mapFault _).bind_form h
  obtain ⟨ins, _, c₂, rfl, hpast₂, h⟩ := (accepts_u2.mapFault _).bind_form h
  obtain ⟨outs, _, c₃, rfl, hpast₃, h⟩ := (accepts_u2.mapFault _).bind_form h
  obtain ⟨tryCount, _, c₄, rfl, hpast₄, h⟩ := (accepts_u2.mapFault _).bind_form h
  obtain ⟨debugInfo, _, c₅, rfl, hpast₅, h⟩ := (accepts_u4.mapFault _).bind_form h
  obtain ⟨unitCount, _, c₆, rfl, hpast₆, h⟩ := (accepts_u4.mapFault _).bind_form h
  obtain ⟨_, _, hneed, h⟩ := bind_eq_ok h
  obtain rfl := need_eq_ok (mapFault_eq_ok hneed)
  obtain ⟨code, _, c₇, ⟨hcode, rfl⟩, hpast₇, h⟩ :=
    ((Accepts.collect_flatMap (fun _ => accepts_u2) 0 unitCount.toNat).mapFault _).bind_form h
  obtain ⟨tables, _, c₈, ⟨padding, area, hpadding, hlen, harea, hplaced, rfl⟩, hpast₈, h⟩ :=
    (accepts_readTables unitCount.toNat tryCount).bind_form h
  cases h
  rw [← hcode, ← Array.length_toList] at hpadding
  let u : Unresolved :=
    { registers, ins, outs, tryCount, debugInfo, unitCount, area
      units := code.toList
      tries := tables.1
      length_units := hcode, length_tries := hlen, area_isSome := harea }
  refine ⟨u, _, ⟨padding, hpadding, rfl⟩, ?_, ?_⟩
  · show Parts.mk registers ins outs debugInfo code tables = u.parts
    rw [Unresolved.parts, Array.toArray_toList, Unresolved.placed, ← hplaced]
  · have hall := hpast₁.append (hpast₂.append (hpast₃.append (hpast₄.append (hpast₅.append
      (hpast₆.append (hpast₇.append hpast₈))))))
    rw [Unresolved.header]
    simp only [List.append_assoc]
    exact hall

end CodeItem
end Dalvik
