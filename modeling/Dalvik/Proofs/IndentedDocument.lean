import Mathlib
import Dalvik.Proofs.JsonDocument

/-!
# Indented documents that are read back

An indented document differs from the same value on one line only in the white space that stands
around marks. The lexer passes over it between tokens (`lexesClosed_of_space`), so the document is
cut into the tokens of the value (`lexes_indentedAt`) and is read back as the same document
(`parse?_document`).
-/

namespace Dalvik
namespace Json

open Bytes

/-! ## White space -/

/-- Blanks between tokens are skipped. -/
theorem lexFrom_space (bytes rest : List UInt8) (acc : Array Token)
    (h : ∀ b ∈ bytes, Token.isSpace b = true) :
    Token.lexFrom .between acc (bytes ++ rest) = Token.lexFrom .between acc rest := by
  induction bytes with
  | nil => rfl
  | cons b bytes ih =>
    rw [List.forall_mem_cons] at h
    have hstep : Token.step? .between acc b = some (.between, acc) := by
      rw [Token.step?, Token.begin?, if_pos h.1]
    rw [List.cons_append, Token.lexFrom, hstep]
    exact ih h.2

/-- White space is cut into no tokens at all. -/
theorem lexesClosed_of_space {s : String} (h : ∀ b ∈ Utf8.encode s, Token.isSpace b = true) :
    LexesClosed s [] := by
  intro acc rest
  rw [lexFrom_space _ rest acc h, Array.appendList_nil]

/-- What stands behind a text does not change what the text delimits. -/
theorem Delimits.append {s : String} (h : Delimits s) (s' : String) : Delimits (s ++ s') := by
  intro rest
  rw [Utf8.encode_append, List.append_assoc]
  exact h _

theorem lexesClosed_blank : LexesClosed " " [] := by
  have hbytes : Utf8.encode " " = [0x20] := Utf8.encode_ofList [' ']
  apply lexesClosed_of_space
  rw [hbytes, List.forall_mem_singleton]
  rfl

theorem encode_lineFeed : Utf8.encode "\n" = [0x0a] := Utf8.encode_ofList ['\n']

theorem lexesClosed_lineFeed : LexesClosed "\n" [] := by
  apply lexesClosed_of_space
  rw [encode_lineFeed, List.forall_mem_singleton]
  rfl

/-- No number and no word goes on into the next line. -/
theorem delimits_lineFeed : Delimits "\n" := by
  intro rest b hb
  rw [encode_lineFeed, List.singleton_append, List.head?_cons] at hb
  rw [← Option.some.inj hb]
  decide

/-- The indentation gives no tokens, whatever the depth. -/
theorem lexesClosed_indent (depth : ℕ) : LexesClosed (Value.indent depth) [] := by
  have hbytes : Utf8.encode (Value.indent depth) = List.replicate (2 * depth) 0x20 := by
    rw [Value.indent, Utf8.encode_ofList, List.flatMap_replicate]
    exact List.flatten_replicate_singleton
  apply lexesClosed_of_space
  rw [hbytes]
  intro b hb
  rw [List.eq_of_mem_replicate hb]
  rfl

namespace Value

/-! ## Several lines -/

/-- An array or object on several lines, given its items or fields. -/
theorem lexes_lines {opening closing : String} {first last : Token} {texts : List String}
    {tokens : List (List Token)} (hopen : Mark opening first) (hclose : Mark closing last)
    (h : List.Forall₂ Lexes texts tokens) (depth : ℕ) :
    Lexes (opening ++ "\n" ++ String.intercalate ",\n" texts ++ "\n" ++ indent depth ++ closing)
      (first :: ([Token.comma].intercalate tokens ++ [last])) := by
  have hcomma : LexesClosed ",\n" [Token.comma] := mark_comma.closed.append lexesClosed_lineFeed
  have hinner := lexes_intercalate hcomma (mark_comma.delimits.append "\n") h
  have hbody := (hopen.closed.append lexesClosed_lineFeed).append_lexes hinner
  have hline := hbody.append_closed lexesClosed_lineFeed delimits_lineFeed
  have hall := ((hline.append (lexesClosed_indent depth)).append hclose.closed).lexes
  rw [List.append_nil, List.append_nil, List.append_assoc] at hall
  exact hall

/-- An array or object without items or fields. -/
theorem lexes_empty {opening closing : String} {first last : Token} (hopen : Mark opening first)
    (hclose : Mark closing last) : Lexes (opening ++ closing) [first, last] :=
  (hopen.closed.append hclose.closed).lexes

mutual

/-- A value with indentation is cut into the same tokens as on one line. -/
theorem lexes_indentedAt : ∀ (depth : ℕ) (v : Value), Lexes (v.indentedAt depth) v.tokens
  | _, null => lexes_null
  | _, bool b => lexes_bool b
  | _, int n => lexes_int n
  | _, text s => (lexesClosed_literal s).lexes
  | _, array [] => lexes_empty mark_openArray mark_closeArray
  | depth, array (v :: rest) => by
    rw [indentedAt, tokens]
    exact lexes_lines mark_openArray mark_closeArray (lexes_indentedItems (depth + 1) (v :: rest))
      depth
  | _, object [] => lexes_empty mark_openObject mark_closeObject
  | depth, object (f :: rest) => by
    rw [indentedAt, tokens]
    exact lexes_lines mark_openObject mark_closeObject
      (lexes_indentedFields (depth + 1) (f :: rest)) depth

/-- Indented items give the tokens of the items. -/
theorem lexes_indentedItems : ∀ (depth : ℕ) (items : List Value),
    List.Forall₂ Lexes (indentedItems depth items) (itemTokens items)
  | _, [] => .nil
  | depth, v :: rest =>
    .cons ((lexesClosed_indent depth).append_lexes (lexes_indentedAt depth v))
      (lexes_indentedItems depth rest)

/-- Indented fields give the tokens of the fields. -/
theorem lexes_indentedFields : ∀ (depth : ℕ) (fields : List (String × Value)),
    List.Forall₂ Lexes (indentedFields depth fields) (fieldTokens fields)
  | _, [] => .nil
  | depth, (key, v) :: rest => by
    have hkey := (lexesClosed_indent depth).append (lexesClosed_literal key)
    have hcolon : LexesClosed ": " [Token.colon] := mark_colon.closed.append lexesClosed_blank
    exact .cons ((hkey.append hcolon).append_lexes (lexes_indentedAt depth v))
      (lexes_indentedFields depth rest)

end

/-- An indented document is read back as the document of its value. -/
theorem parse?_document {v : Value} (h : v.height ≤ Document.maxDepth) :
    Document.parse? (Utf8.encode v.document) = some v.toDocument := by
  have hlexes := (lexes_indentedAt 0 v).append_closed lexesClosed_lineFeed delimits_lineFeed
  rw [List.append_nil] at hlexes
  exact parse?_of_lexes hlexes.lexes h

end Value

end Json
end Dalvik
