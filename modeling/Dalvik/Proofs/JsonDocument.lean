import Mathlib
import Dalvik.Json.Document
import Dalvik.Json.Value
import Dalvik.Proofs.JsonNumber

/-!
# Documents that are read back

A value is written as a text that the lexer cuts into the tokens of the value (`lexes_compact`),
and the parser makes one document of these tokens (`parseFrom_tokens`). So a value that is not
nested too deeply is read back as its own document (`parse?_compact`).

A number and a word go on until something else follows, so what is said about the lexer is said
for texts with a delimiter behind them; texts that end by themselves can stand in front of
anything.
-/

namespace Dalvik
namespace Json

open Bytes

/-! ## Texts and their tokens -/

/-- No number and no word goes on into these bytes. -/
def Delimited (rest : List UInt8) : Prop :=
  ∀ b ∈ rest.head?, Token.isNumeric b = false ∧ Token.isLetter b = false

/-- The text is cut into the tokens, in front of a delimiter. -/
def Lexes (s : String) (tokens : List Token) : Prop :=
  ∀ acc rest, Delimited rest →
    Token.lexFrom .between acc (Utf8.encode s ++ rest) = Token.lexFrom .between (acc ++ tokens) rest

/-- The text is cut into the tokens, whatever follows. -/
def LexesClosed (s : String) (tokens : List Token) : Prop :=
  ∀ acc rest,
    Token.lexFrom .between acc (Utf8.encode s ++ rest) = Token.lexFrom .between (acc ++ tokens) rest

/-- The text ends a number or a word in front of it. -/
def Delimits (s : String) : Prop := ∀ rest, Delimited (Utf8.encode s ++ rest)

theorem delimited_nil : Delimited [] := by
  intro b hb
  cases hb

theorem append_tokens (acc : Array Token) (tokens tokens' : List Token) :
    acc ++ tokens ++ tokens' = acc ++ (tokens ++ tokens') := by
  apply Array.ext'
  simp

theorem LexesClosed.lexes {s : String} {tokens : List Token} (h : LexesClosed s tokens) :
    Lexes s tokens := fun acc rest _ => h acc rest

/-- Texts that close their tokens can stand one after the other. -/
theorem LexesClosed.append {s s' : String} {tokens tokens' : List Token}
    (h : LexesClosed s tokens) (h' : LexesClosed s' tokens') :
    LexesClosed (s ++ s') (tokens ++ tokens') := by
  intro acc rest
  rw [Utf8.encode_append, List.append_assoc, h, h', append_tokens]

/-- A text that ends by itself stands in front of any other. -/
theorem LexesClosed.append_lexes {s s' : String} {tokens tokens' : List Token}
    (h : LexesClosed s tokens) (h' : Lexes s' tokens') : Lexes (s ++ s') (tokens ++ tokens') := by
  intro acc rest hrest
  rw [Utf8.encode_append, List.append_assoc, h, h' _ _ hrest, append_tokens]

/-- Any text stands in front of one that delimits it. -/
theorem Lexes.append_closed {s s' : String} {tokens tokens' : List Token} (h : Lexes s tokens)
    (h' : LexesClosed s' tokens') (hs : Delimits s') : LexesClosed (s ++ s') (tokens ++ tokens') := by
  intro acc rest
  rw [Utf8.encode_append, List.append_assoc, h _ _ (hs rest), h', append_tokens]

/-! ## Marks, words and literals -/

/-- The text is a mark of one token, which ends what stands in front of it. -/
structure Mark (s : String) (t : Token) : Prop where
  closed : LexesClosed s [t]
  delimits : Delimits s

/-- A text of one byte is a mark if the lexer says so. -/
theorem mark_of_byte {s : String} {t : Token} (b : UInt8) (hs : Utf8.encode s = [b])
    (hb : ∀ acc, Token.begin? acc b = some (.between, acc.push t))
    (hother : Token.isNumeric b = false ∧ Token.isLetter b = false) : Mark s t := by
  refine ⟨?_, ?_⟩
  · intro acc rest
    have hstep : Token.step? .between acc b = some (.between, acc.push t) := hb acc
    rw [hs, List.singleton_append, Token.lexFrom, hstep]
    rfl
  · intro rest c hc
    rw [hs, List.singleton_append, List.head?_cons] at hc
    rw [← Option.some.inj hc]
    exact hother

theorem mark_openArray : Mark "[" .openArray :=
  mark_of_byte 0x5b (Utf8.encode_ofList ['[']) (fun _ => rfl) (by decide)

theorem mark_closeArray : Mark "]" .closeArray :=
  mark_of_byte 0x5d (Utf8.encode_ofList [']']) (fun _ => rfl) (by decide)

theorem mark_openObject : Mark "\x7b" .openObject :=
  mark_of_byte 0x7b (Utf8.encode_ofList ['\x7b']) (fun _ => rfl) (by decide)

theorem mark_closeObject : Mark "\x7d" .closeObject :=
  mark_of_byte 0x7d (Utf8.encode_ofList ['\x7d']) (fun _ => rfl) (by decide)

theorem mark_colon : Mark ":" .colon :=
  mark_of_byte 0x3a (Utf8.encode_ofList [':']) (fun _ => rfl) (by decide)

theorem mark_comma : Mark "," .comma :=
  mark_of_byte 0x2c (Utf8.encode_ofList [',']) (fun _ => rfl) (by decide)

/-- A number or a word is complete in front of a delimiter. -/
theorem lexFrom_delimited {mode : Token.Mode} {acc acc' : Array Token} {rest : List UInt8}
    (hmode : (∃ rev, mode = .inNumber rev) ∨ ∃ rev, mode = .inWord rev)
    (hfinish : Token.finish? acc mode = some acc') (hrest : Delimited rest) :
    Token.lexFrom mode acc rest = Token.lexFrom .between acc' rest := by
  cases rest with
  | nil => exact hfinish
  | cons b rest =>
    obtain ⟨hnumeric, hletter⟩ := hrest b rfl
    have hstep : Token.step? mode acc b = Token.begin? acc' b := by
      rcases hmode with ⟨rev, rfl⟩ | ⟨rev, rfl⟩
      · rw [Token.step?, if_neg (by simp [hnumeric]), hfinish]
        rfl
      · rw [Token.step?, if_neg (by simp [hletter]), hfinish]
        rfl
    rw [Token.lexFrom, hstep]
    rfl

/-- Inside a number the scanner collects the numeric bytes. -/
theorem lexFrom_numeric (bytes rest rev : List UInt8) (acc : Array Token)
    (h : ∀ b ∈ bytes, Token.isNumeric b = true) :
    Token.lexFrom (.inNumber rev) acc (bytes ++ rest)
      = Token.lexFrom (.inNumber (bytes.reverse ++ rev)) acc rest := by
  induction bytes generalizing rev with
  | nil => rfl
  | cons b bytes ih =>
    rw [List.forall_mem_cons] at h
    rw [List.cons_append, Token.lexFrom, Token.step?, if_pos h.1]
    show Token.lexFrom (.inNumber (b :: rev)) acc (bytes ++ rest) = _
    rw [ih _ h.2, List.reverse_cons, List.append_assoc, List.singleton_append]

/-- What starts like a number is neither a blank nor a quote. -/
theorem begin?_numeric {b : UInt8} (h : Token.isNumeric b = true) (acc : Array Token) :
    Token.begin? acc b = some (.inNumber [b], acc) := by
  have hother : Token.isSpace b = false ∧ (b == 0x22) = false := by
    revert h
    revert b
    decide +kernel
  rw [Token.begin?, if_neg (by simp [hother.1]), if_neg (by simp [hother.2]), if_pos h]

/-- An integer is one token. -/
theorem lexes_int (n : ℤ) : Lexes (toString n) [.number (Utf8.encode (toString n))] := by
  intro acc rest hrest
  have hnumber := isNumber_toString n
  have hnumeric := fun b => isNumeric_of_mem_toString (b := b) (n := n)
  revert hnumber hnumeric
  generalize Utf8.encode (toString n) = bytes
  intro hnumber hnumeric
  -- all that matters about the numeral is that it is a number, and so not empty
  cases bytes with
  | nil => exact absurd hnumber (by decide)
  | cons b bytes =>
    have hb : Token.isNumeric b = true := hnumeric b List.mem_cons_self
    have hfinish : Token.finish? acc (.inNumber (bytes.reverse ++ [b]))
        = some (acc ++ [Token.number (b :: bytes)]) := by
      simp [Token.finish?, hnumber]
    have hbegin : Token.step? .between acc b = some (.inNumber [b], acc) := begin?_numeric hb acc
    rw [List.cons_append, Token.lexFrom, hbegin]
    show Token.lexFrom (.inNumber [b]) acc (bytes ++ rest) = _
    rw [lexFrom_numeric _ _ _ _ fun c hc => hnumeric c (List.mem_cons_of_mem b hc)]
    exact lexFrom_delimited (.inl ⟨_, rfl⟩) hfinish hrest

/-- A word is one token. -/
theorem lexes_null : Lexes "null" [.null] := by
  have hbytes : Utf8.encode "null" = [0x6e, 0x75, 0x6c, 0x6c] :=
    Utf8.encode_ofList ['n', 'u', 'l', 'l']
  intro acc rest hrest
  rw [hbytes]
  exact lexFrom_delimited (.inr ⟨_, rfl⟩) rfl hrest

theorem lexes_bool (b : Bool) : Lexes (if b then "true" else "false") [.bool b] := by
  have htrue : Utf8.encode "true" = [0x74, 0x72, 0x75, 0x65] :=
    Utf8.encode_ofList ['t', 'r', 'u', 'e']
  have hfalse : Utf8.encode "false" = [0x66, 0x61, 0x6c, 0x73, 0x65] :=
    Utf8.encode_ofList ['f', 'a', 'l', 's', 'e']
  intro acc rest hrest
  cases b with
  | false =>
    show Token.lexFrom .between acc (Utf8.encode "false" ++ rest) = _
    rw [hfalse]
    exact lexFrom_delimited (.inr ⟨_, rfl⟩) rfl hrest
  | true =>
    show Token.lexFrom .between acc (Utf8.encode "true" ++ rest) = _
    rw [htrue]
    exact lexFrom_delimited (.inr ⟨_, rfl⟩) rfl hrest

/-- A literal gives one token, with the bytes of its content. -/
theorem lexesClosed_literal (s : String) :
    LexesClosed (Value.literal s) [.string (contentBytes .document s)] := by
  intro acc rest
  exact lexFrom_literal .document s rest acc

/-! ## Lists with a separator -/

/-- A list that is not empty is its first member and each other one behind a separator. -/
theorem intercalate_cons {α : Type} (sep x : List α) (xs : List (List α)) :
    sep.intercalate (x :: xs) = x ++ xs.flatMap (sep ++ ·) := by
  induction xs generalizing x with
  | nil => rw [List.intercalate_singleton, List.flatMap_nil, List.append_nil]
  | cons y ys ih =>
    rw [List.intercalate_cons_cons, ih, List.flatMap_cons, List.append_assoc, List.append_assoc]

/-- Texts with a separator between them are cut one by one. -/
theorem lexes_intercalate {sep : String} {mark : List Token} (hsep : LexesClosed sep mark)
    (hdelimits : Delimits sep) {texts : List String} {tokens : List (List Token)}
    (h : List.Forall₂ Lexes texts tokens) :
    Lexes (sep.intercalate texts) (mark.intercalate tokens) := by
  induction h with
  | nil =>
    intro acc rest _
    have hempty : Utf8.encode "" = [] := Utf8.encode_ofList []
    rw [String.intercalate_nil, List.intercalate_nil, hempty, List.nil_append,
      Array.appendList_nil]
  | @cons s t texts tokens hhead htail ih =>
    -- a separator stands only between two texts
    cases htail with
    | nil =>
      rw [String.intercalate_singleton, List.intercalate_singleton]
      exact hhead
    | cons _ _ =>
      rw [String.intercalate_cons_cons, List.intercalate_cons_cons]
      exact (hhead.append_closed hsep hdelimits).append_lexes ih

namespace Value

mutual

/-- The tokens of a value. -/
def tokens : Value → List Token
  | null => [.null]
  | bool b => [.bool b]
  | int n => [.number (Utf8.encode (toString n))]
  | text s => [.string (contentBytes .document s)]
  | array items => .openArray :: ([Token.comma].intercalate (itemTokens items) ++ [.closeArray])
  | object fields =>
    .openObject :: ([Token.comma].intercalate (fieldTokens fields) ++ [.closeObject])

/-- The tokens of each item of an array. -/
def itemTokens : List Value → List (List Token)
  | [] => []
  | v :: rest => tokens v :: itemTokens rest

/-- The tokens of each field of an object. -/
def fieldTokens : List (String × Value) → List (List Token)
  | [] => []
  | (key, v) :: rest =>
    (.string (contentBytes .document key) :: .colon :: tokens v) :: fieldTokens rest

end

/-! ## One line -/

/-- An array or object on one line, given its items or fields. -/
theorem lexes_enclosed {opening closing : String} {first last : Token} {texts : List String}
    {tokens : List (List Token)} (hopen : Mark opening first) (hclose : Mark closing last)
    (h : List.Forall₂ Lexes texts tokens) :
    Lexes (opening ++ String.intercalate "," texts ++ closing)
      (first :: ([Token.comma].intercalate tokens ++ [last])) := by
  have hinner := lexes_intercalate mark_comma.closed mark_comma.delimits h
  exact ((hopen.closed.append_lexes hinner).append_closed hclose.closed hclose.delimits).lexes

mutual

/-- A value on one line is cut into its tokens. -/
theorem lexes_compact : ∀ v : Value, Lexes v.compact v.tokens
  | null => lexes_null
  | bool b => lexes_bool b
  | int n => lexes_int n
  | text s => (lexesClosed_literal s).lexes
  | array items => by
    rw [compact, tokens]
    exact lexes_enclosed mark_openArray mark_closeArray (lexes_compactItems items)
  | object fields => by
    rw [compact, tokens]
    exact lexes_enclosed mark_openObject mark_closeObject (lexes_compactFields fields)

/-- Compact items give the tokens of the items. -/
theorem lexes_compactItems : ∀ items : List Value,
    List.Forall₂ Lexes (compactItems items) (itemTokens items)
  | [] => .nil
  | v :: rest => .cons (lexes_compact v) (lexes_compactItems rest)

/-- Compact fields give the tokens of the fields. -/
theorem lexes_compactFields : ∀ fields : List (String × Value),
    List.Forall₂ Lexes (compactFields fields) (fieldTokens fields)
  | [] => .nil
  | (key, v) :: rest => by
    have hkey := (lexesClosed_literal key).append mark_colon.closed
    exact .cons (hkey.append_lexes (lexes_compact v)) (lexes_compactFields rest)

end

/-- A text is cut into its tokens when nothing stands behind it. -/
theorem lex?_of_lexes {s : String} {tokens : List Token} (h : Lexes s tokens) :
    Token.lex? (Utf8.encode s) = some tokens := by
  have hall := h #[] [] delimited_nil
  rw [List.append_nil] at hall
  unfold Token.lex?
  rw [hall]
  simp [Token.lexFrom, Token.finish?]

/-! ## Documents -/

mutual

/-- The document that a value is read back as. -/
def toDocument : Value → Document
  | null => .null
  | bool b => .bool b
  | int n => .number (Utf8.encode (toString n))
  | text s => .string (contentBytes .document s)
  | array items => .array (itemDocuments items)
  | object fields => .object (fieldDocuments fields)

/-- The documents of the items of an array. -/
def itemDocuments : List Value → List Document
  | [] => []
  | v :: rest => toDocument v :: itemDocuments rest

/-- The keys and documents of the fields of an object. -/
def fieldDocuments : List (String × Value) → List (List UInt8 × Document)
  | [] => []
  | (key, v) :: rest => (contentBytes .document key, toDocument v) :: fieldDocuments rest

end

theorem fieldDocuments_eq_map (fields : List (String × Value)) :
    fieldDocuments fields = fields.map fun f => (contentBytes .document f.1, f.2.toDocument) := by
  induction fields with
  | nil => rfl
  | cons f rest ih => rw [fieldDocuments, ih, List.map_cons]

mutual

/-- The number of arrays and objects that are open at a time in a value. -/
def height : Value → ℕ
  | array items => itemsHeight items + 1
  | object fields => fieldsHeight fields + 1
  | _ => 0

/-- The largest height of an item. -/
def itemsHeight : List Value → ℕ
  | [] => 0
  | v :: rest => max (height v) (itemsHeight rest)

/-- The largest height of a field. -/
def fieldsHeight : List (String × Value) → ℕ
  | [] => 0
  | (_, v) :: rest => max (height v) (fieldsHeight rest)

end

open Document (Frame parseFrom maxDepth)

/-- An array that has just been opened takes a value in the same way as later on. -/
theorem parseFrom_valueOrEnd (v : Value) (stack : List Frame) (depth : ℕ) (rest : List Token) :
    parseFrom ⟨.valueOrEnd, stack, depth⟩ (v.tokens ++ rest)
      = parseFrom ⟨.value, stack, depth⟩ (v.tokens ++ rest) := by
  -- no value starts with the end of an array
  rcases stack with _ | ⟨_ | _, _⟩ <;> cases v <;> rfl

/-- An array or object is opened as long as not too many are open. -/
theorem parseFrom_enter {depth : ℕ} (h : depth < maxDepth) (stack : List Frame)
    (rest : List Token) :
    parseFrom ⟨.value, stack, depth⟩ (.openArray :: rest)
        = parseFrom ⟨.valueOrEnd, .array [] :: stack, depth + 1⟩ rest ∧
      parseFrom ⟨.value, stack, depth⟩ (.openObject :: rest)
        = parseFrom ⟨.keyOrEnd [], stack, depth + 1⟩ rest := by
  simp [parseFrom, Document.step?, Document.beginValue?, Document.enter?, h]

mutual

/-- The tokens of a value are parsed as its document. -/
theorem parseFrom_tokens : ∀ (v : Value) (stack : List Frame) (depth : ℕ) (rest : List Token),
    depth + v.height ≤ maxDepth → parseFrom ⟨.value, stack, depth⟩ (v.tokens ++ rest)
      = parseFrom ⟨.after v.toDocument, stack, depth⟩ rest
  | null, _, _, _, _ => rfl
  | bool _, _, _, _, _ => rfl
  | int _, _, _, _, _ => rfl
  | text _, _, _, _, _ => rfl
  | array [], stack, depth, rest, h => by
    rw [tokens, List.cons_append, (parseFrom_enter (Nat.lt_of_succ_le h) stack _).1]
    rfl
  | array (v :: items), stack, depth, rest, h => by
    rw [height, itemsHeight] at h
    rw [tokens, itemTokens, List.cons_append, (parseFrom_enter (by omega) stack _).1,
      intercalate_cons, List.append_assoc, List.append_assoc, parseFrom_valueOrEnd,
      parseFrom_tokens v _ _ _ (by omega)]
    exact parseFrom_items items v.toDocument [] stack (depth + 1) rest (by omega)
  | object [], stack, depth, rest, h => by
    rw [tokens, List.cons_append, (parseFrom_enter (Nat.lt_of_succ_le h) stack _).2]
    rfl
  | object ((key, v) :: fields), stack, depth, rest, h => by
    rw [height, fieldsHeight] at h
    rw [tokens, fieldTokens, List.cons_append, (parseFrom_enter (by omega) stack _).2,
      intercalate_cons, List.append_assoc, List.append_assoc]
    show parseFrom ⟨.value, .object [] (contentBytes .document key) :: stack, depth + 1⟩
      (v.tokens ++ _) = _
    rw [parseFrom_tokens v _ _ _ (by omega)]
    exact parseFrom_fields fields v.toDocument (contentBytes .document key) [] stack (depth + 1)
      rest (by omega)

/-- The items after the first one, up to the end of the array. -/
theorem parseFrom_items : ∀ (items : List Value) (d : Document) (rev : List Document)
    (stack : List Frame) (depth : ℕ) (rest : List Token), depth + itemsHeight items ≤ maxDepth →
    parseFrom ⟨.after d, .array rev :: stack, depth⟩
        ((itemTokens items).flatMap ([Token.comma] ++ ·) ++ ([.closeArray] ++ rest))
      = parseFrom ⟨.after (.array (rev.reverse ++ d :: itemDocuments items)), stack, depth - 1⟩ rest
  | [], d, rev, stack, depth, rest, _ => by
    show parseFrom ⟨.after (.array (d :: rev).reverse), stack, depth - 1⟩ rest = _
    rw [List.reverse_cons]
    rfl
  | v :: items, d, rev, stack, depth, rest, h => by
    rw [itemsHeight] at h
    rw [itemTokens, List.flatMap_cons, List.append_assoc, List.append_assoc]
    show parseFrom ⟨.value, .array (d :: rev) :: stack, depth⟩ (v.tokens ++ _) = _
    rw [parseFrom_tokens v _ _ _ (by omega),
      parseFrom_items items v.toDocument (d :: rev) stack depth rest (by omega),
      List.reverse_cons, List.append_assoc]
    rfl

/-- The fields after the first one, up to the end of the object. -/
theorem parseFrom_fields : ∀ (fields : List (String × Value)) (d : Document) (key : List UInt8)
    (rev : List (List UInt8 × Document)) (stack : List Frame) (depth : ℕ) (rest : List Token),
    depth + fieldsHeight fields ≤ maxDepth →
    parseFrom ⟨.after d, .object rev key :: stack, depth⟩
        ((fieldTokens fields).flatMap ([Token.comma] ++ ·) ++ ([.closeObject] ++ rest))
      = parseFrom ⟨.after (.object (rev.reverse ++ (key, d) :: fieldDocuments fields)), stack,
          depth - 1⟩ rest
  | [], d, key, rev, stack, depth, rest, _ => by
    show parseFrom ⟨.after (.object ((key, d) :: rev).reverse), stack, depth - 1⟩ rest = _
    rw [List.reverse_cons]
    rfl
  | (key', v) :: fields, d, key, rev, stack, depth, rest, h => by
    rw [fieldsHeight] at h
    rw [fieldTokens, List.flatMap_cons, List.append_assoc, List.append_assoc]
    show parseFrom ⟨.value, .object ((key, d) :: rev) (contentBytes .document key') :: stack, depth⟩
      (v.tokens ++ _) = _
    rw [parseFrom_tokens v _ _ _ (by omega),
      parseFrom_fields fields v.toDocument _ ((key, d) :: rev) stack depth rest (by omega),
      List.reverse_cons, List.append_assoc]
    rfl

end

/-- A text with the tokens of a value is read back as the document of the value. -/
theorem parse?_of_lexes {s : String} {v : Value} (hlexes : Lexes s v.tokens)
    (h : v.height ≤ maxDepth) : Document.parse? (Utf8.encode s) = some v.toDocument := by
  have hparse := parseFrom_tokens v [] 0 [] (by omega)
  rw [List.append_nil] at hparse
  unfold Document.parse?
  rw [lex?_of_lexes hlexes]
  exact hparse

/-- A value on one line is read back as its document. -/
theorem parse?_compact {v : Value} (h : v.height ≤ maxDepth) :
    Document.parse? (Utf8.encode v.compact) = some v.toDocument :=
  parse?_of_lexes (lexes_compact v) h

end Value

end Json
end Dalvik
