import Mathlib
import Dalvik.Proofs.WrittenItem

/-!
# Readers that find their own end

A reader finds its own end if it can do three things only (`Delimited`): it takes a front of the
bytes and would take that front whatever came behind it, while every shorter piece of the front is
too short; or the bytes run short; or it refuses them, and more bytes would not change that. What is
built from such readers in sequence is such a reader (`SelfDelimiting.bind`,
`SelfDelimiting.collect`), and so is the reader of code items (`selfDelimiting_read`). The size of
an item is the length of the front that was taken (`size_of_read`).
-/

namespace Dalvik

/-- The bytes have run short. -/
def Bytes.ReadFault.IsShort : Bytes.ReadFault → Prop
  | .truncated .. => True
  | .leb128 _ => False

namespace Bytes.Reader

variable {ε δ α β : Type}

/-- How the reader ends on the bytes at `pos`: it takes a front of them, they run short, or it
refuses them whatever follows. -/
inductive Delimited (short : ε → Prop) (r : Reader ε α) (pos : ℕ) (bytes : List UInt8) : Prop where
  | taken (front : List UInt8) {back : List UInt8} {a : α} (hbytes : bytes = front ++ back)
      (hreads : Reads r pos front a)
      (hcut : ∀ k < front.length, ∃ e, r ⟨pos, front.take k⟩ = .error e ∧ short e)
  | short {e : ε} (herror : r ⟨pos, bytes⟩ = .error e) (hshort : short e)
  | refused {e : ε} (herror : ∀ more, r ⟨pos, bytes ++ more⟩ = .error e)

/-- A reader that does the same at a position ends in the same way there. -/
theorem Delimited.congr {short : ε → Prop} {x y : Reader ε α} {pos : ℕ} {bytes : List UInt8}
    (h : Delimited short x pos bytes) (hsame : ∀ bytes', y ⟨pos, bytes'⟩ = x ⟨pos, bytes'⟩) :
    Delimited short y pos bytes := by
  cases h with
  | taken front hbytes hreads hcut =>
    refine .taken front hbytes (fun rest => (hsame _).trans (hreads rest)) ?_
    intro k hk
    rw [hsame]
    exact hcut k hk
  | short herror hshort => exact .short ((hsame _).trans herror) hshort
  | refused herror => exact .refused fun more => (hsame _).trans (herror more)

/-- The reader finds its own end, at every position and on all bytes. -/
def SelfDelimiting (short : ε → Prop) (r : Reader ε α) : Prop :=
  ∀ pos bytes, Delimited short r pos bytes

/-! ## One reader after the other -/

theorem bind_apply (x : Reader ε α) (f : α → Reader ε β) (c : Cursor) :
    (x >>= f) c = (x c >>= fun p => f p.1 p.2) := rfl

/-- Where the first of two readers fails, so do both. -/
theorem bind_of_error {x : Reader ε α} {f : α → Reader ε β} {c : Cursor} {e : ε}
    (h : x c = .error e) : (x >>= f) c = .error e := by
  rw [bind_apply, h]
  rfl

/-- Where the first of two readers succeeds, the second goes on. -/
theorem bind_of_ok {x : Reader ε α} {f : α → Reader ε β} {c c' : Cursor} {a : α}
    (h : x c = .ok (a, c')) : (x >>= f) c = f a c' := by
  rw [bind_apply, h]
  rfl

namespace SelfDelimiting

variable {short : ε → Prop}

theorem pure (a : α) : SelfDelimiting short (pure a : Reader ε α) := by
  intro pos bytes
  refine .taken [] rfl (Reads.pure a) ?_
  intro k hk
  cases hk

/-- A result that does not depend on the bytes. -/
theorem lift (x : Except ε α) : SelfDelimiting short (liftM x : Reader ε α) := by
  intro pos bytes
  cases x with
  | ok a => exact pure a pos bytes
  | error e => exact .refused fun more => rfl

theorem throw (e : ε) : SelfDelimiting short (throw e : Reader ε α) := by
  intro pos bytes
  exact .refused fun more => rfl

/-- A piece of two fronts is a piece of the first one, or all of that and a piece of the second. -/
theorem cut_append {x : Reader ε α} {f : α → Reader ε β} {pos : ℕ} {front next : List UInt8} {a : α}
    (hreads : Reads x pos front a)
    (hfirst : ∀ k < front.length, ∃ e, x ⟨pos, front.take k⟩ = .error e ∧ short e)
    (hsecond : ∀ k < next.length, ∃ e, f a ⟨pos + front.length, next.take k⟩ = .error e ∧ short e) :
    ∀ k < (front ++ next).length, ∃ e, (x >>= f) ⟨pos, (front ++ next).take k⟩ = .error e ∧ short e := by
  intro k hk
  rw [List.length_append] at hk
  by_cases hlt : k < front.length
  · obtain ⟨e, herror, hshort⟩ := hfirst k hlt
    refine ⟨e, ?_, hshort⟩
    rw [List.take_append_of_le_length (by omega)]
    exact bind_of_error herror
  · obtain ⟨e, herror, hshort⟩ := hsecond (k - front.length) (by omega)
    refine ⟨e, ?_, hshort⟩
    have htake : (front ++ next).take k = front ++ next.take (k - front.length) := by
      rw [List.take_append, List.take_of_length_le (by omega)]
    rw [htake, bind_of_ok (hreads _)]
    exact herror

/-- Two readers in sequence are self-delimiting if each of them is. -/
theorem bind {x : Reader ε α} {f : α → Reader ε β} (hx : SelfDelimiting short x)
    (hf : ∀ a, SelfDelimiting short (f a)) : SelfDelimiting short (x >>= f) := by
  intro pos bytes
  cases hx pos bytes with
  | short herror hshort => exact .short (bind_of_error herror) hshort
  | refused herror => exact .refused fun more => bind_of_error (herror more)
  | @taken front back a hbytes hreads hcut =>
    -- the second reader starts where the front of the first one ends
    have hgo : ∀ more, (x >>= f) ⟨pos, bytes ++ more⟩ = f a ⟨pos + front.length, back ++ more⟩ := by
      intro more
      rw [hbytes, List.append_assoc]
      exact bind_of_ok (hreads _)
    cases hf a (pos + front.length) back with
    | @short e herror hshort =>
      have hnow := hgo []
      rw [List.append_nil, List.append_nil] at hnow
      exact .short (hnow.trans herror) hshort
    | @refused e herror => exact .refused fun more => (hgo more).trans (herror more)
    | @taken next back' b hback hreads' hcut' =>
      have hboth : bytes = front ++ next ++ back' := by rw [hbytes, hback, List.append_assoc]
      exact .taken (front ++ next) hboth (hreads.bind hreads') (cut_append hreads hcut hcut')

/-- A look at the position takes no bytes. The reader may depend on the position, but not on the
bytes that are left. -/
theorem get_bind {f : Cursor → Reader ε β} (hpos : ∀ c c' : Cursor, c.pos = c'.pos → f c = f c')
    (hf : ∀ c, SelfDelimiting short (f c)) : SelfDelimiting short (get >>= f) := by
  intro pos bytes
  refine Delimited.congr (hf ⟨pos, bytes⟩ pos bytes) ?_
  intro bytes'
  have hsame := hpos ⟨pos, bytes'⟩ ⟨pos, bytes⟩ rfl
  rw [← hsame]
  rfl

theorem ite {p : Prop} [Decidable p] {x y : Reader ε α} (hx : p → SelfDelimiting short x)
    (hy : ¬ p → SelfDelimiting short y) : SelfDelimiting short (if p then x else y) := by
  split
  · exact hx (by assumption)
  · exact hy (by assumption)

/-- Restating the faults keeps the end, if those of short bytes stay such. -/
theorem mapFault {short' : δ → Prop} {g : ε → δ} (hg : ∀ e, short e → short' (g e))
    {x : Reader ε α} (hx : SelfDelimiting short x) : SelfDelimiting short' (Reader.mapFault g x) := by
  have herr : ∀ {c : Cursor} {e : ε}, x c = .error e → Reader.mapFault g x c = .error (g e) := by
    intro c e h
    show (x c).mapError g = _
    rw [h]
    rfl
  intro pos bytes
  cases hx pos bytes with
  | taken front hbytes hreads hcut =>
    refine .taken front hbytes (hreads.mapFault g) ?_
    intro k hk
    obtain ⟨e, herror, hshort⟩ := hcut k hk
    exact ⟨g e, herr herror, hg e hshort⟩
  | short herror hshort => exact .short (herr herror) (hg _ hshort)
  | refused herror => exact .refused fun more => herr (herror more)

/-- The steps of a loop. -/
theorem collect {step : ℕ → Reader ε α} (hstep : ∀ i, SelfDelimiting short (step i)) (i n : ℕ)
    (acc : Array α) : SelfDelimiting short (Reader.collect step i n acc) := by
  induction n generalizing i acc with
  | zero => exact pure acc
  | succ n ih =>
    rw [collect_succ]
    exact (hstep i).bind fun a => ih (i + 1) (acc.push a)

end SelfDelimiting

/-! ## Words and numbers -/

/-- One byte. -/
def byte : Reader ReadFault UInt8 := fun c =>
  match c.rest with
  | [] => .error (.truncated 1 c.pos 0)
  | b :: rest => .ok (b, ⟨c.pos + 1, rest⟩)

theorem selfDelimiting_byte : SelfDelimiting ReadFault.IsShort byte := by
  intro pos bytes
  match bytes with
  | [] => exact .short rfl trivial
  | b :: rest =>
    refine .taken [b] rfl (fun _ => rfl) ?_
    intro k hk
    obtain rfl : k = 0 := by simpa using hk
    exact ⟨_, rfl, trivial⟩

theorem selfDelimiting_u2 : SelfDelimiting ReadFault.IsShort u2 := by
  intro pos bytes
  match bytes with
  | [] => exact .short rfl trivial
  | [_] => exact .short rfl trivial
  | x :: y :: rest =>
    refine .taken [x, y] rfl (fun _ => rfl) ?_
    intro k hk
    match k, hk with
    | 0, _ => exact ⟨_, rfl, trivial⟩
    | 1, _ => exact ⟨_, rfl, trivial⟩

theorem selfDelimiting_u4 : SelfDelimiting ReadFault.IsShort u4 := by
  intro pos bytes
  match bytes with
  | [] => exact .short rfl trivial
  | [_] => exact .short rfl trivial
  | [_, _] => exact .short rfl trivial
  | [_, _, _] => exact .short rfl trivial
  | x :: y :: z :: w :: rest =>
    refine .taken [x, y, z, w] rfl (fun _ => rfl) ?_
    intro k hk
    match k, hk with
    | 0, _ => exact ⟨_, rfl, trivial⟩
    | 1, _ => exact ⟨_, rfl, trivial⟩
    | 2, _ => exact ⟨_, rfl, trivial⟩
    | 3, _ => exact ⟨_, rfl, trivial⟩

/-- Groups are read byte by byte, up to one without the continuation bit. -/
theorem groups_succ (n : ℕ) :
    groups (n + 1) = byte >>= fun b =>
      if b.toNat < 128 then pure [b] else groups n >>= fun bs => pure (b :: bs) := by
  funext c
  obtain ⟨pos, rest⟩ := c
  cases rest with
  | nil => rfl
  | cons b rest =>
    have hbyte : byte ⟨pos, b :: rest⟩ = .ok (b, ⟨pos + 1, rest⟩) := rfl
    rw [bind_of_ok hbyte, groups]
    dsimp only
    split_ifs
    · rfl
    · rw [bind_apply]
      rcases groups n ⟨pos + 1, rest⟩ with e | ⟨bs, c'⟩ <;> rfl

/-- A number stops at the byte without a continuation bit. -/
theorem selfDelimiting_groups (n : ℕ) : SelfDelimiting ReadFault.IsShort (groups n) := by
  induction n with
  | zero =>
    intro pos bytes
    exact .refused (e := .leb128 pos) fun more => rfl
  | succ n ih =>
    rw [groups_succ]
    refine selfDelimiting_byte.bind fun b => ?_
    exact .ite (fun _ => .pure _) fun _ => ih.bind fun bs => .pure _

theorem selfDelimiting_uleb128 : SelfDelimiting ReadFault.IsShort uleb128 :=
  (selfDelimiting_groups maxGroups).bind fun _ => .pure _

theorem selfDelimiting_sleb128 : SelfDelimiting ReadFault.IsShort sleb128 :=
  (selfDelimiting_groups maxGroups).bind fun _ => .pure _

/-! ## Bytes that are asked for in advance -/

/-- Asking for bytes that a reader needs anyway changes nothing but the fault. -/
theorem SelfDelimiting.need_bind {short : ε → Prop} {g : ReadFault → ε}
    (hg : ∀ e, ReadFault.IsShort e → short (g e)) {n : ℕ} {f : Unit → Reader ε β}
    (hf : SelfDelimiting short (f ()))
    (hneeds : ∀ c b c', f () c = .ok (b, c') → n ≤ c.rest.length) :
    SelfDelimiting short (Reader.mapFault g (need n) >>= f) := by
  have hthere : ∀ pos (bytes : List UInt8), n ≤ bytes.length →
      (Reader.mapFault g (need n) >>= f) ⟨pos, bytes⟩ = f () ⟨pos, bytes⟩ := by
    intro pos bytes hle
    apply bind_of_ok
    show (need n ⟨pos, bytes⟩).mapError g = _
    rw [need, if_pos hle]
    rfl
  have hmissing : ∀ pos (bytes : List UInt8), ¬ n ≤ bytes.length →
      ∃ e, (Reader.mapFault g (need n) >>= f) ⟨pos, bytes⟩ = .error e ∧ short e := by
    intro pos bytes hlt
    refine ⟨g (.truncated n pos bytes.length), bind_of_error ?_, hg _ trivial⟩
    show (need n ⟨pos, bytes⟩).mapError g = _
    rw [need, if_neg hlt]
    rfl
  intro pos bytes
  by_cases hle : n ≤ bytes.length
  · cases hf pos bytes with
    | @taken front back b hbytes hreads hcut =>
      have hfront : n ≤ front.length := by
        have hread := hreads []
        rw [List.append_nil] at hread
        exact hneeds _ _ _ hread
      refine .taken (a := b) front hbytes (fun rest => ?_) fun k hk => ?_
      · rw [hthere _ _ (by rw [List.length_append]; omega)]
        exact hreads rest
      · by_cases hk' : n ≤ (front.take k).length
        · rw [hthere _ _ hk']
          exact hcut k hk
        · exact hmissing _ _ hk'
    | short herror hshort => exact .short ((hthere _ _ hle).trans herror) hshort
    | refused herror =>
      exact .refused fun more =>
        (hthere _ _ (by rw [List.length_append]; omega)).trans (herror more)
  · obtain ⟨e, herror, hshort⟩ := hmissing pos bytes hle
    exact .short herror hshort

/-- Reading units takes two bytes for each. -/
theorem le_length_of_collect_u2 {i n : ℕ} {acc xs : Array UInt16} {c c' : Cursor}
    (h : Reader.collect (fun _ => u2) i n acc c = .ok (xs, c')) : n * 2 ≤ c.rest.length := by
  induction n generalizing i acc c with
  | zero => omega
  | succ n ih =>
    rw [collect_succ] at h
    obtain ⟨a, c₁, hfirst, hrest⟩ := bind_eq_ok h
    have hle := ih hrest
    obtain ⟨pos, rest⟩ := c
    match rest, hfirst with
    | [], hfirst => cases hfirst
    | [_], hfirst => cases hfirst
    | x :: y :: rest, hfirst =>
      cases hfirst
      simp only [List.length_cons] at hle ⊢
      omega

end Bytes.Reader

/-! ## Code items -/

namespace CodeItem

open Bytes Reader

/-- The bytes have run short. -/
def Fault.IsShort (f : Fault) : Prop := f.toClass = .truncated

/-- Where bytes run short in a part of an item, they run short in the item. -/
theorem isShort_read {e : ReadFault} (h : e.IsShort) (place : Place) :
    (Fault.read place e).IsShort := by
  cases e with
  | truncated needed pos available => rfl
  | leb128 pos => exact absurd h id

/-- Saying where a fault occurred makes no difference. -/
theorem selfDelimiting_located {α : Type} {r : Reader ReadFault α}
    (h : SelfDelimiting ReadFault.IsShort r) (place : Place) :
    SelfDelimiting Fault.IsShort (located place r) :=
  h.mapFault fun _ he => isShort_read he place

/-- A try item has a fixed size. -/
theorem selfDelimiting_readTryItem (i : ℕ) : SelfDelimiting Fault.IsShort (readTryItem i) := by
  refine selfDelimiting_located ?_ _
  refine selfDelimiting_u4.bind fun start => selfDelimiting_u2.bind fun count => ?_
  exact selfDelimiting_u2.bind fun offset => .pure _

/-- A typed handler is two numbers. -/
theorem selfDelimiting_readHandler (i : ℕ) :
    SelfDelimiting ReadFault.IsShort (readHandler i) :=
  selfDelimiting_uleb128.bind fun _ => selfDelimiting_uleb128.bind fun _ => .pure _

/-- A list of handlers has as many entries as its size says. -/
theorem selfDelimiting_readHandlerList (i : ℕ) :
    SelfDelimiting Fault.IsShort (readHandlerList i) := by
  refine (selfDelimiting_located selfDelimiting_sleb128 _).bind fun size => ?_
  -- a size that is too large is refused before any handler is read
  refine .ite (fun _ => (SelfDelimiting.throw _).bind fun _ => ?_) fun _ => ?_
  all_goals
    refine (selfDelimiting_located (.collect selfDelimiting_readHandler _ _ _) _).bind fun typed => ?_
    refine .ite (fun _ => ?_) fun _ => .pure _
    exact (selfDelimiting_located selfDelimiting_uleb128 _).bind fun addr => .pure _

theorem selfDelimiting_readListAt (areaStart i : ℕ) :
    SelfDelimiting Fault.IsShort (readListAt areaStart i) := by
  refine .get_bind ?_ fun c => ?_
  · intro c c' hpos
    rw [hpos]
  · exact (selfDelimiting_readHandlerList i).bind fun handlers => .pure _

/-- The table has as many try items and lists as are declared. -/
theorem selfDelimiting_readTable (tryCount : ℕ) :
    SelfDelimiting Fault.IsShort (readTable tryCount) := by
  refine (SelfDelimiting.collect selfDelimiting_readTryItem _ _ _).bind fun items => ?_
  refine .get_bind ?_ fun c => ?_
  · intro c c' hpos
    rw [hpos]
  · refine (selfDelimiting_located selfDelimiting_uleb128 _).bind fun listCount => ?_
    refine (SelfDelimiting.collect (selfDelimiting_readListAt _) _ _ _).bind fun lists => ?_
    -- the last checks look at what was read and not at the bytes
    refine (SelfDelimiting.lift _).bind fun tries => ?_
    exact .ite (fun _ => .pure _) fun _ => .throw _

theorem selfDelimiting_readTries (units tryCount : ℕ) :
    SelfDelimiting Fault.IsShort (readTries units tryCount) := by
  rw [readTries_eq]
  refine .ite (fun _ => ?_) fun _ => selfDelimiting_readTable tryCount
  exact (selfDelimiting_located selfDelimiting_u2 _).bind fun _ => selfDelimiting_readTable tryCount

/-- A whole code item is self-delimiting. -/
theorem selfDelimiting_read : SelfDelimiting Fault.IsShort read := by
  have hu2 := selfDelimiting_located selfDelimiting_u2 .header
  have hu4 := selfDelimiting_located selfDelimiting_u4 .header
  refine hu2.bind fun registers => hu2.bind fun ins => hu2.bind fun outs => ?_
  refine hu2.bind fun tryCount => hu4.bind fun debugInfo => hu4.bind fun units => ?_
  have hunits : SelfDelimiting ReadFault.IsShort
      (Reader.collect (fun _ => u2) 0 units.toNat #[]) := .collect (fun _ => selfDelimiting_u2) _ _ _
  refine SelfDelimiting.need_bind (fun _ he => isShort_read he _) ?_ ?_
  · refine (selfDelimiting_located hunits _).bind fun code => ?_
    have hend : ∀ tables : List TryBlock × List (List CatchHandler),
        SelfDelimiting Fault.IsShort (do
          let size := (← get).pos
          return { registers, ins, outs, debugInfo, code, tries := tables.1,
                   handlerLists := tables.2, size : CodeItem }) := by
      intro tables
      refine .get_bind ?_ fun c => .pure _
      intro c c' hpos
      rw [hpos]
    exact .ite (fun _ => (SelfDelimiting.pure _).bind hend)
      fun _ => (selfDelimiting_readTries _ _).bind hend
  · intro c b c' h
    obtain ⟨code, c₁, hcode, -⟩ := bind_eq_ok h
    exact le_length_of_collect_u2 (mapFault_eq_ok hcode)

/-- The size of an item is the position behind it. -/
theorem size_of_read {start stop : Cursor} {item : CodeItem} (h : read start = .ok (item, stop)) :
    item.size = stop.pos := by
  obtain ⟨registers, _, -, h⟩ := bind_eq_ok h
  obtain ⟨ins, _, -, h⟩ := bind_eq_ok h
  obtain ⟨outs, _, -, h⟩ := bind_eq_ok h
  obtain ⟨tryCount, _, -, h⟩ := bind_eq_ok h
  obtain ⟨debugInfo, _, -, h⟩ := bind_eq_ok h
  obtain ⟨units, _, -, h⟩ := bind_eq_ok h
  obtain ⟨_, _, -, h⟩ := bind_eq_ok h
  obtain ⟨code, _, -, h⟩ := bind_eq_ok h
  dsimp only at h
  split_ifs at h
  all_goals
    obtain ⟨tables, _, -, h⟩ := bind_eq_ok h
    obtain ⟨c, _, hget, h⟩ := bind_eq_ok h
    cases hget
    cases h
    rfl

/-- An item is parsed as it is read, whatever bytes are left over. -/
theorem parse_of_read {bytes : List UInt8} {item : CodeItem} {stop : Cursor}
    (h : read ⟨0, bytes⟩ = .ok (item, stop)) : parse bytes = .ok item := by
  rw [parse, h]

/-- A fault of the reader is the fault of the parser. -/
theorem parse_of_read_error {bytes : List UInt8} {f : Fault} (h : read ⟨0, bytes⟩ = .error f) :
    parse bytes = .error f := by
  rw [parse, h]

/-- A code item tells where it ends. If the bytes start with one, it lies inside them, it is read
alike whatever follows its last byte, and each shorter piece of it is truncated. A fault other than
that the bytes have run short is not mended by more bytes. -/
theorem parse_selfDelimiting (bytes : List UInt8) :
    (∀ item, parse bytes = .ok item →
      item.size ≤ bytes.length ∧
      (∀ more, parse (bytes.take item.size ++ more) = .ok item) ∧
      ∀ k < item.size, ∃ f, parse (bytes.take k) = .error f ∧ f.toClass = .truncated) ∧
    ∀ f, parse bytes = .error f → f.toClass ≠ .truncated →
      ∀ more, parse (bytes ++ more) = .error f := by
  cases selfDelimiting_read 0 bytes with
  | @taken front back item hbytes hreads hcut =>
    have hsize : item.size = front.length := by
      rw [size_of_read (hreads back), Nat.zero_add]
    have hparse : parse bytes = .ok item := by
      rw [hbytes]
      exact parse_of_read (hreads back)
    constructor
    · intro item' hitem'
      rw [hparse] at hitem'
      cases hitem'
      refine ⟨?_, fun more => ?_, fun k hk => ?_⟩
      · rw [hbytes, List.length_append]
        omega
      · rw [hsize, hbytes, List.take_left]
        exact parse_of_read (hreads more)
      · obtain ⟨f, herror, hshort⟩ := hcut k (by omega)
        refine ⟨f, ?_, hshort⟩
        rw [hbytes, List.take_append_of_le_length (by omega)]
        exact parse_of_read_error herror
    · intro f hf
      rw [hparse] at hf
      cases hf
  | @short e herror hshort =>
    have hparse := parse_of_read_error herror
    constructor
    · intro item hitem
      rw [hparse] at hitem
      cases hitem
    · intro f hf hclass
      rw [hparse] at hf
      cases hf
      exact absurd hshort hclass
  | @refused e herror =>
    have hparse : ∀ more, parse (bytes ++ more) = .error e := fun more =>
      parse_of_read_error (herror more)
    have hnow := hparse []
    rw [List.append_nil] at hnow
    constructor
    · intro item hitem
      rw [hnow] at hitem
      cases hitem
    · intro f hf _ more
      rw [hnow] at hf
      cases hf
      exact hparse more

/-- A body of one unit with a try item whose handler list stands at `offset`. -/
def returnInTry (offset : UInt8) : List UInt8 :=
  [1, 0, 0, 0, 0, 0, 1, 0, 0, 0, 0, 0, 1, 0, 0, 0, 0x0e, 0, 0, 0, 0, 0, 0, 0, 1, 0, offset, 0,
    1, 1, 7, 0]

/-- The list stands at the offset one. There the item has thirty-two bytes and nothing behind it
counts; at another offset no bytes behind it help. -/
theorem parse_of_returnInTry :
    (∃ item, parse (returnInTry 1 ++ [0xff]) = .ok item ∧ item.size = 32 ∧
      (∀ more, parse (returnInTry 1 ++ more) = .ok item) ∧
      ∃ f, parse (returnInTry 1).dropLast = .error f ∧ f.toClass = .truncated) ∧
    ∀ more, parse (returnInTry 2 ++ more) = .error (.handlerOffset 0 2) := by
  obtain ⟨item, hitem, hsize⟩ : ∃ item, parse (returnInTry 1 ++ [0xff]) = .ok item ∧ item.size = 32 :=
    ⟨_, rfl, rfl⟩
  constructor
  · obtain ⟨-, hmore, hcut⟩ := (parse_selfDelimiting (returnInTry 1 ++ [0xff])).1 item hitem
    rw [hsize] at hmore hcut
    exact ⟨item, hitem, hsize, hmore, hcut 31 (by decide)⟩
  · exact (parse_selfDelimiting (returnInTry 2)).2 _ rfl (by decide)

end CodeItem
end Dalvik
