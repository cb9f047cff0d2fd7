import Mathlib
import Dalvik.Command.Run

/-!
# Hexadecimal input

The grammar of hexadecimal input, said without any reference to reading: white space around an
optional mark and a body (`Framed`), and a body of two digits for each byte, in either case
(`Spells`). Reading accepts exactly that grammar, and of the two faults a wrong digit comes first
(`decode_cases`). No two bodies of digits are framed in the same text, since neither a blank nor
the letter of a mark is a digit (`Framed.eq_body`).

Nothing behind the reader looks at the text again, so a scan depends on the bytes that are spelled
alone, wherever they come from.
-/

namespace Dalvik
namespace Bytes.Hex

open Text (isBlank trimChars)

/-! ## Digits -/

/-- The character is the digit of `n`, in either case. -/
def DigitOf (n : ℕ) (c : Char) : Prop := c = Nat.digitChar n ∨ c = (Nat.digitChar n).toUpper

instance (n : ℕ) (c : Char) : Decidable (DigitOf n c) :=
  inferInstanceAs (Decidable (_ ∨ _))

/-- The character is a hexadecimal digit. -/
def IsDigit (c : Char) : Prop := ∃ n < 16, DigitOf n c

theorem value?_of_digitOf {n : ℕ} (hn : n < 16) {c : Char} (h : DigitOf n c) :
    value? c = some n := by
  have hvalues : ∀ n < 16, value? (Nat.digitChar n) = some n ∧
      value? (Nat.digitChar n).toUpper = some n := by
    decide
  rcases h with rfl | rfl
  · exact (hvalues n hn).1
  · exact (hvalues n hn).2

/-- A character has the value of a digit if and only if it is that digit. -/
theorem value?_eq_some_iff {c : Char} {n : ℕ} : value? c = some n ↔ n < 16 ∧ DigitOf n c := by
  refine ⟨fun h => ?_, fun ⟨hn, h⟩ => value?_of_digitOf hn h⟩
  have hdigits : ∀ k < 128, ∀ n ∈ value? (Char.ofNat k), n < 16 ∧ DigitOf n (Char.ofNat k) := by
    decide +kernel
  -- all digits are characters of ASCII
  have hascii : c.toNat < 128 := by
    by_contra hlarge
    have hnot : ∀ d : Char, d.toNat < 128 → ¬ c ≤ d := by
      intro d hd hcd
      have hle : c.toNat ≤ d.toNat := hcd
      omega
    simp [value?, hnot '9' (by decide), hnot 'f' (by decide), hnot 'F' (by decide)] at h
  have hchar : Char.ofNat c.toNat = c := Char.ofNat_toNat c
  have hc := hdigits c.toNat hascii
  rw [hchar] at hc
  exact hc n h

theorem isSome_value?_iff {c : Char} : (value? c).isSome = true ↔ IsDigit c := by
  simp [Option.isSome_iff_exists, value?_eq_some_iff, IsDigit]

theorem IsDigit.not_blank {c : Char} (h : IsDigit c) : isBlank c = false := by
  obtain ⟨n, hn, hc⟩ := h
  have hblank : ∀ n < 16, isBlank (Nat.digitChar n) = false ∧
      isBlank (Nat.digitChar n).toUpper = false := by
    decide
  rcases hc with rfl | rfl
  · exact (hblank n hn).1
  · exact (hblank n hn).2

/-! ## Bodies -/

/-- The characters spell the bytes: two digits for each byte, the higher one first. -/
inductive Spells : List Char → List UInt8 → Prop where
  | nil : Spells [] []
  | cons {c d : Char} {cs : List Char} {b : UInt8} {bs : List UInt8}
      (hhigh : DigitOf (b.toNat / 16) c) (hlow : DigitOf (b.toNat % 16) d) (h : Spells cs bs) :
      Spells (c :: d :: cs) (b :: bs)

namespace Spells

variable {cs : List Char} {bs : List UInt8}

/-- Every byte is spelled with two digits. -/
theorem length_eq (h : Spells cs bs) : cs.length = 2 * bs.length := by
  induction h with
  | nil => rfl
  | cons _ _ _ ih =>
    rw [List.length_cons, List.length_cons, ih, List.length_cons]
    omega

theorem isDigit (h : Spells cs bs) : ∀ c ∈ cs, IsDigit c := by
  induction h with
  | nil => simp
  | @cons c d cs b bs hhigh hlow _ ih =>
    have hb := b.toNat_lt
    rw [List.forall_mem_cons, List.forall_mem_cons]
    exact ⟨⟨_, by omega, hhigh⟩, ⟨_, by omega, hlow⟩, ih⟩

/-- What is spelled is read, after bytes that have been read before. -/
theorem decodeDigits_eq (h : Spells cs bs) (acc : Array UInt8) :
    decodeDigits cs acc = .ok (acc ++ bs.toArray) := by
  induction h generalizing acc with
  | nil => simp [decodeDigits]
  | @cons c d cs b bs hhigh hlow _ ih =>
    have hb := b.toNat_lt
    have hbyte : (b.toNat / 16 * 16 + b.toNat % 16).toUInt8 = b := by
      rw [Nat.div_add_mod', Nat.toUInt8, UInt8.ofNat_toNat]
    rw [decodeDigits, value?_of_digitOf (by omega) hhigh, value?_of_digitOf (by omega) hlow]
    dsimp only
    rw [hbyte, ih]
    simp

end Spells

/-- Digits in pairs spell some bytes. -/
theorem exists_spells : ∀ {cs : List Char}, (∀ c ∈ cs, IsDigit c) → cs.length % 2 = 0 →
    ∃ bs, Spells cs bs
  | [], _, _ => ⟨[], .nil⟩
  | [_], _, hlen => absurd hlen Nat.one_ne_zero
  | c :: d :: cs, hdigits, hlen => by
    rw [List.forall_mem_cons, List.forall_mem_cons] at hdigits
    obtain ⟨⟨m, hm, hc⟩, ⟨n, hn, hd⟩, hrest⟩ := hdigits
    rw [List.length_cons, List.length_cons] at hlen
    obtain ⟨bs, hbs⟩ := exists_spells hrest (by omega)
    have hbyte : (m * 16 + n).toUInt8.toNat = m * 16 + n := by
      rw [Nat.toUInt8, UInt8.toNat_ofNat', Nat.mod_eq_of_lt (by omega)]
    refine ⟨(m * 16 + n).toUInt8 :: bs, .cons ?_ ?_ hbs⟩
    · rwa [hbyte, show (m * 16 + n) / 16 = m by omega]
    · rwa [hbyte, show (m * 16 + n) % 16 = n by omega]

/-- A digit that is left over is the fault of digits only. -/
theorem decodeDigits_odd : ∀ {cs : List Char}, (∀ c ∈ cs, IsDigit c) → cs.length % 2 = 1 →
    ∀ acc, decodeDigits cs acc = .error .oddLength
  | [], _, hlen, _ => absurd hlen (by decide)
  | [c], hdigits, _, _ => by
    rw [decodeDigits, if_pos (isSome_value?_iff.mpr (hdigits c (List.mem_singleton_self c)))]
  | c :: d :: cs, hdigits, hlen, acc => by
    rw [List.forall_mem_cons, List.forall_mem_cons] at hdigits
    obtain ⟨⟨m, hm, hc⟩, ⟨n, hn, hd⟩, hrest⟩ := hdigits
    rw [List.length_cons, List.length_cons] at hlen
    rw [decodeDigits, value?_of_digitOf hm hc, value?_of_digitOf hn hd]
    exact decodeDigits_odd hrest (by omega) _

/-- A wrong digit is the fault wherever it stands. -/
theorem decodeDigits_wrong : ∀ {cs : List Char}, ¬ (∀ c ∈ cs, IsDigit c) →
    ∀ acc, decodeDigits cs acc = .error .digit
  | [], hwrong, _ => absurd (by simp) hwrong
  | [c], hwrong, _ => by
    rw [List.forall_mem_singleton] at hwrong
    rw [decodeDigits, if_neg (fun h => hwrong (isSome_value?_iff.mp h))]
  | c :: d :: cs, hwrong, acc => by
    rw [decodeDigits]
    split
    · rename_i high low hhigh hlow
      have hc : IsDigit c := ⟨high, value?_eq_some_iff.mp hhigh⟩
      have hd : IsDigit d := ⟨low, value?_eq_some_iff.mp hlow⟩
      refine decodeDigits_wrong (fun hrest => hwrong ?_) _
      rw [List.forall_mem_cons, List.forall_mem_cons]
      exact ⟨hc, hd, hrest⟩
    · rfl

/-! ## Frames -/

/-- What can stand in front of the digits. -/
def IsMark (mark : List Char) : Prop := mark = [] ∨ mark = ['0', 'x'] ∨ mark = ['0', 'X']

theorem IsMark.not_blank {mark : List Char} (h : IsMark mark) : ∀ c ∈ mark, isBlank c = false := by
  have hletters : isBlank '0' = false ∧ isBlank 'x' = false ∧ isBlank 'X' = false := by decide
  rcases h with rfl | rfl | rfl <;> simp [hletters]

/-- The text is the body with at most one mark in front and white space around both. -/
def Framed (s : String) (body : List Char) : Prop :=
  ∃ lead mark trail, s.toList = lead ++ (mark ++ body) ++ trail ∧ IsMark mark ∧
    (∀ c ∈ lead, isBlank c = true) ∧ ∀ c ∈ trail, isBlank c = true

theorem dropWhile_of_not {p : Char → Bool} {cs : List Char} (h : ∀ c ∈ cs, p c = false) :
    cs.dropWhile p = cs := by
  cases cs with
  | nil => rfl
  | cons c cs => rw [List.dropWhile_cons_of_neg (by simp [h c List.mem_cons_self])]

/-- White space is dropped from both ends of characters that are none. -/
theorem trimChars_append {lead core trail : List Char} (hlead : ∀ c ∈ lead, isBlank c = true)
    (htrail : ∀ c ∈ trail, isBlank c = true) (hcore : ∀ c ∈ core, isBlank c = false) :
    trimChars (lead ++ core ++ trail) = core := by
  have hback : (core ++ trail).reverse.dropWhile isBlank = core.reverse := by
    rw [List.reverse_append, List.dropWhile_append_of_pos (by simpa using htrail),
      dropWhile_of_not (by simpa using hcore)]
  unfold trimChars
  rw [List.append_assoc, List.dropWhile_append_of_pos hlead]
  cases core with
  | nil =>
    have hnone : trail.dropWhile isBlank = [] := by
      rw [List.dropWhile_eq_nil_iff]
      exact htrail
    rw [List.nil_append, hnone]
    rfl
  | cons c core =>
    rw [List.cons_append, List.dropWhile_cons_of_neg (by simp [hcore c List.mem_cons_self]),
      ← List.cons_append, hback, List.reverse_reverse]

/-- Trimming takes off nothing but white space. -/
theorem exists_trimChars (s : List Char) : ∃ lead trail, s = lead ++ trimChars s ++ trail ∧
    (∀ c ∈ lead, isBlank c = true) ∧ ∀ c ∈ trail, isBlank c = true := by
  have hfront := List.takeWhile_append_dropWhile (p := isBlank) (l := s)
  have hback := List.takeWhile_append_dropWhile (p := isBlank) (l := (s.dropWhile isBlank).reverse)
  refine ⟨s.takeWhile isBlank, ((s.dropWhile isBlank).reverse.takeWhile isBlank).reverse, ?_, ?_, ?_⟩
  · rw [trimChars, List.append_assoc, ← List.reverse_append, hback, List.reverse_reverse, hfront]
  · intro c hc
    exact List.mem_takeWhile_imp hc
  · intro c hc
    exact List.mem_takeWhile_imp (List.mem_reverse.mp hc)

theorem exists_dropMark (s : List Char) : ∃ mark, s = mark ++ dropMark s ∧ IsMark mark := by
  unfold dropMark
  split
  · exact ⟨['0', 'x'], rfl, .inr (.inl rfl)⟩
  · exact ⟨['0', 'X'], rfl, .inr (.inr rfl)⟩
  · exact ⟨[], rfl, .inl rfl⟩

/-- The letter of a mark is no digit. -/
theorem not_isDigit_x : ¬ IsDigit 'x' ∧ ¬ IsDigit 'X' := by
  rw [← isSome_value?_iff, ← isSome_value?_iff]
  decide

/-- The mark is dropped in front of digits, and none is found among them. -/
theorem dropMark_append {mark body : List Char} (hmark : IsMark mark)
    (hbody : ∀ c ∈ body, IsDigit c) : dropMark (mark ++ body) = body := by
  rcases hmark with rfl | rfl | rfl
  · rw [List.nil_append]
    unfold dropMark
    split
    · exact absurd (hbody 'x' (by simp)) not_isDigit_x.1
    · exact absurd (hbody 'X' (by simp)) not_isDigit_x.2
    · rfl
  · rfl
  · rfl

/-- The body that is read. -/
def body (s : String) : List Char := dropMark (trimChars s.toList)

/-- Every text has a body, with a mark and blanks around it. -/
theorem framed_body (s : String) : Framed s (body s) := by
  obtain ⟨lead, trail, hs, hlead, htrail⟩ := exists_trimChars s.toList
  obtain ⟨mark, hcore, hmark⟩ := exists_dropMark (trimChars s.toList)
  refine ⟨lead, mark, trail, ?_, hmark, hlead, htrail⟩
  rw [body, ← hcore]
  exact hs

/-- A body of digits is the one that is read, so there is at most one. -/
theorem Framed.eq_body {s : String} {cs : List Char} (h : Framed s cs)
    (hdigits : ∀ c ∈ cs, IsDigit c) : cs = body s := by
  obtain ⟨lead, mark, trail, hs, hmark, hlead, htrail⟩ := h
  have hcore : ∀ c ∈ mark ++ cs, isBlank c = false :=
    List.forall_mem_append.mpr ⟨hmark.not_blank, fun c hc => (hdigits c hc).not_blank⟩
  rw [body, hs, trimChars_append hlead htrail hcore, dropMark_append hmark hdigits]

/-- Of all bodies that a text can be taken to have, only the one that is read can be made of
digits. -/
theorem exists_framed_iff (s : String) {P : List Char → Prop}
    (hP : ∀ cs, P cs → ∀ c ∈ cs, IsDigit c) : (∃ cs, Framed s cs ∧ P cs) ↔ P (body s) := by
  constructor
  · rintro ⟨cs, hframed, hcs⟩
    rwa [← hframed.eq_body (hP cs hcs)]
  · intro h
    exact ⟨body s, framed_body s, h⟩

/-! ## Reading -/

theorem decode_eq (s : String) : decode s = (decodeDigits (body s) #[]).map (·.toList) := rfl

/-- A body that spells bytes is decoded to them. -/
theorem decode_of_spells {s : String} {b : List UInt8} (h : Spells (body s) b) :
    decode s = .ok b := by
  rw [decode_eq, h.decodeDigits_eq]
  simp [Except.map]

/-- What a text is read as: the bytes that its body spells, or one of the two faults. -/
theorem decode_cases (s : String) :
    (∃ b, decode s = .ok b ∧ Spells (body s) b) ∨
      (decode s = .error .oddLength ∧ (∀ c ∈ body s, IsDigit c) ∧ (body s).length % 2 = 1) ∨
      (decode s = .error .digit ∧ ¬ ∀ c ∈ body s, IsDigit c) := by
  by_cases hdigits : ∀ c ∈ body s, IsDigit c
  · rcases Nat.mod_two_eq_zero_or_one (body s).length with heven | hodd
    · obtain ⟨b, hb⟩ := exists_spells hdigits heven
      exact .inl ⟨b, decode_of_spells hb, hb⟩
    · refine .inr (.inl ⟨?_, hdigits, hodd⟩)
      rw [decode_eq, decodeDigits_odd hdigits hodd]
      rfl
  · refine .inr (.inr ⟨?_, hdigits⟩)
    rw [decode_eq, decodeDigits_wrong hdigits]
    rfl

/-- A text is decoded to bytes if and only if a body of it spells them. -/
theorem decode_eq_ok_iff (s : String) (b : List UInt8) :
    decode s = .ok b ↔ ∃ cs, Framed s cs ∧ Spells cs b := by
  rw [exists_framed_iff s fun cs hcs => hcs.isDigit]
  refine ⟨fun h => ?_, decode_of_spells⟩
  obtain ⟨b', hok, hb⟩ | ⟨herror, -⟩ | ⟨herror, -⟩ := decode_cases s
  · rw [hok] at h
    cases h
    exact hb
  · rw [herror] at h
    cases h
  · rw [herror] at h
    cases h

/-- A text lacks a digit if and only if a body of it has an odd number of digits and nothing
else. -/
theorem decode_eq_oddLength_iff (s : String) : decode s = .error .oddLength ↔
    ∃ cs, Framed s cs ∧ (∀ c ∈ cs, IsDigit c) ∧ cs.length % 2 = 1 := by
  rw [exists_framed_iff s fun cs hcs => hcs.1]
  obtain ⟨b, hok, hb⟩ | ⟨herror, hdigits, hodd⟩ | ⟨herror, hwrong⟩ := decode_cases s
  · have hlength := hb.length_eq
    refine iff_of_false (by simp [hok]) fun h => ?_
    omega
  · exact iff_of_true herror ⟨hdigits, hodd⟩
  · exact iff_of_false (by simp [herror]) fun h => hwrong h.1

/-- A text has a wrong digit if and only if no body of it has digits only. -/
theorem decode_eq_digit_iff (s : String) : decode s = .error .digit ↔
    ¬ ∃ cs, Framed s cs ∧ ∀ c ∈ cs, IsDigit c := by
  rw [exists_framed_iff s fun cs hcs => hcs]
  obtain ⟨b, hok, hb⟩ | ⟨herror, hdigits, -⟩ | ⟨herror, hwrong⟩ := decode_cases s
  · exact iff_of_false (by simp [hok]) (not_not.mpr hb.isDigit)
  · exact iff_of_false (by simp [herror]) (not_not.mpr hdigits)
  · exact iff_of_true herror hwrong

/-! ## Writing -/

/-- The hexadecimal form of bytes spells them. -/
theorem spells_ofByte (b : List UInt8) : Spells (b.flatMap ofByte) b := by
  induction b with
  | nil => exact .nil
  | cons b bs ih => exact .cons (.inl rfl) (.inl rfl) ih

/-- The digits of some bytes are read as these bytes. -/
theorem decode_encode (b : List UInt8) : decode (encode b) = .ok b := by
  rw [decode_eq_ok_iff]
  refine ⟨b.flatMap ofByte, ⟨[], [], [], ?_, .inl rfl, by simp, by simp⟩, spells_ofByte b⟩
  rw [encode, String.toList_ofList]
  simp

end Bytes.Hex

/-! ## Scans -/

namespace Analyzer

/-- Entries with the same names, in which the same bytes are spelled. -/
structure SameBytes (e e' : ManifestEntry) : Prop where
  className : e.className = e'.className
  method : e.method = e'.method
  proto : e.proto = e'.proto
  bytes : Bytes.Hex.decode e.code = Bytes.Hex.decode e'.code

/-- Entries with the same bytes are prepared alike. -/
theorem SameBytes.prepare {e e' : ManifestEntry} (h : SameBytes e e') (a : Analyzer)
    (store : Option VerdictStore) : prepare a store e = prepare a store e' := by
  unfold Analyzer.prepare
  rw [h.className, h.method, h.proto, h.bytes]

theorem prepareAll_of_sameBytes {es es' : List ManifestEntry} (h : List.Forall₂ SameBytes es es')
    (a : Analyzer) (store : Option VerdictStore) : prepareAll a store es = prepareAll a store es' := by
  induction h with
  | nil => rfl
  | cons hhead _ ih => rw [prepareAll, prepareAll, hhead.prepare, ih]

/-- A run sees the bytes that are spelled, and not how. -/
theorem run_of_sameBytes {es es' : List ManifestEntry} (h : List.Forall₂ SameBytes es es')
    (a : Analyzer) (refused : Batch.Refused) (store : Option VerdictStore) :
    run a refused store es = run a refused store es' := by
  unfold run
  rw [prepareAll_of_sameBytes h, h.length_eq]

end Analyzer

namespace Command

theorem analyze_of_sameBytes {es es' : List ManifestEntry}
    (h : List.Forall₂ Analyzer.SameBytes es es') (files : Files) (place : String) (a : Analyzer)
    (print : List MethodReport → String) :
    analyze files place a es print = analyze files place a es' print := by
  unfold analyze
  simp only [Analyzer.run_of_sameBytes h]

/-- A scan of a file does what a scan of any text does that spells the bytes of the file, as long as
there is a text at all. -/
theorem scan_of_spelled {files : Files} {path text : String} {b : List UInt8}
    (hfile : files.read path = .ok b) (htext : text ≠ "") (hspelled : Bytes.Hex.decode text = .ok b)
    (o : ScanOptions) :
    scan files { o with hex := text, file := "" } = scan files { o with hex := "", file := path } := by
  have hpath : path ≠ "" := by
    rintro rfl
    cases hfile
  have hempty : "".isEmpty = true := rfl
  have htext' : text.isEmpty = false := by simpa using htext
  have hpath' : path.isEmpty = false := by simpa using hpath
  have hcode : ScanOptions.code { o with hex := text, file := "" } files = .ok text := by
    simp only [ScanOptions.code, htext', hempty, Bool.false_eq_true, if_false, if_true]
  have hcode' : ScanOptions.code { o with hex := "", file := path } files
      = .ok (Bytes.Hex.encode b) := by
    simp only [ScanOptions.code, hpath', hempty, hfile, Bool.true_eq_false, Bool.false_eq_true,
      if_false]
  have hentries : List.Forall₂ Analyzer.SameBytes [⟨o.className, o.method, o.proto, text⟩]
      [⟨o.className, o.method, o.proto, Bytes.Hex.encode b⟩] := by
    refine .cons ⟨rfl, rfl, rfl, ?_⟩ .nil
    rw [hspelled, Bytes.Hex.decode_encode]
  unfold scan
  rw [hcode, hcode']
  dsimp only
  rw [analyze_of_sameBytes hentries]
  rfl

/-- How hexadecimal input is read, and what comes of it. -/
structure HexInput : Prop where
  /-- The bytes are those that the body of the text spells. -/
  ok_iff : ∀ s b, Bytes.Hex.decode s = .ok b ↔
    ∃ cs, Bytes.Hex.Framed s cs ∧ Bytes.Hex.Spells cs b
  /-- A text without a body of digits has a wrong one. -/
  digit_iff : ∀ s, Bytes.Hex.decode s = .error .digit ↔
    ¬ ∃ cs, Bytes.Hex.Framed s cs ∧ ∀ c ∈ cs, Bytes.Hex.IsDigit c
  /-- Only digits can be odd in number. -/
  oddLength_iff : ∀ s, Bytes.Hex.decode s = .error .oddLength ↔
    ∃ cs, Bytes.Hex.Framed s cs ∧ (∀ c ∈ cs, Bytes.Hex.IsDigit c) ∧ cs.length % 2 = 1
  /-- The digits of some bytes are read as these bytes. -/
  encode : ∀ b, Bytes.Hex.decode (Bytes.Hex.encode b) = .ok b
  /-- The reports of a run, with their digests, and the store after it depend on the bytes that the
  entries spell. -/
  run : ∀ es es', List.Forall₂ Analyzer.SameBytes es es' → ∀ a refused store,
    Analyzer.run a refused store es = Analyzer.run a refused store es'
  /-- So does a scan, which finds the bytes in a file or in a text. -/
  scan : ∀ (files : Files) path text b, files.read path = .ok b → text ≠ "" →
    Bytes.Hex.decode text = .ok b → ∀ o : ScanOptions,
      Command.scan files { o with hex := text, file := "" }
        = Command.scan files { o with hex := "", file := path }
  /-- The empty text is taken for none, although it spells no bytes. -/
  scan_empty : ∀ files (o : ScanOptions),
    Command.scan files { o with hex := "", file := "" } = .fail files .oneInput

/-- Reading accepts exactly the grammar, and a scan sees nothing of its input but the bytes, unless
the text is empty. -/
theorem hexInput_exact : HexInput where
  ok_iff := Bytes.Hex.decode_eq_ok_iff
  digit_iff := Bytes.Hex.decode_eq_digit_iff
  oddLength_iff := Bytes.Hex.decode_eq_oddLength_iff
  encode := Bytes.Hex.decode_encode
  run _ _ h := Analyzer.run_of_sameBytes h
  scan _ _ _ _ hfile htext hspelled := scan_of_spelled hfile htext hspelled
  scan_empty _ _ := rfl

/-- A file with a body that returns at once. -/
def returnFile : Files := { files := [(["m.bin"], [1, 0, 0, 0, 0, 0, 0, 0, 0, 0, 0, 0, 1, 0, 0, 0, 0x0e, 0])] }

/-- The text of the body with white space, a mark and digits of both cases. -/
def returnText : String := " 0X010000000000000000000000010000000E00\n"

/-- A scan of the file and a scan of the text do the same. -/
theorem scan_of_returnText :
    returnFile.read "m.bin"
        = .ok [1, 0, 0, 0, 0, 0, 0, 0, 0, 0, 0, 0, 1, 0, 0, 0, 0x0e, 0] ∧
      Bytes.Hex.decode returnText = .ok [1, 0, 0, 0, 0, 0, 0, 0, 0, 0, 0, 0, 1, 0, 0, 0, 0x0e, 0] ∧
      Command.scan returnFile { hex := returnText, json := true }
        = Command.scan returnFile { file := "m.bin", json := true } := by
  have hfile : returnFile.read "m.bin"
      = .ok [1, 0, 0, 0, 0, 0, 0, 0, 0, 0, 0, 0, 1, 0, 0, 0, 0x0e, 0] := by
    decide +kernel
  have htext : Bytes.Hex.decode returnText
      = .ok [1, 0, 0, 0, 0, 0, 0, 0, 0, 0, 0, 0, 1, 0, 0, 0, 0x0e, 0] := by
    decide +kernel
  exact ⟨hfile, htext, hexInput_exact.scan returnFile "m.bin" returnText _ hfile (by decide) htext
    { json := true }⟩

/-- A file without bytes. -/
def emptyFile : Files := { files := [(["e.bin"], [])] }

/-- The empty text spells the bytes of the file, but a scan of it is refused, while a scan of the
file goes on to reject what it reads. -/
theorem scan_of_emptyText :
    Bytes.Hex.decode "" = .ok [] ∧ emptyFile.read "e.bin" = .ok [] ∧
      (Command.scan emptyFile { hex := "" }).result = .error .oneInput ∧
      (Command.scan emptyFile { file := "e.bin" }).result = .error .rejected := by
  decide +kernel

end Command
end Dalvik
