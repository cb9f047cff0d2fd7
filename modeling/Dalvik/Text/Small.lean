/-!
# Small letters

The small letter of each letter, as far as the letters of ASCII and the length of a text in UTF-8
are concerned: outside ASCII, the letters whose small form takes another number of bytes.
-/

namespace Dalvik.Text

/-- The letters outside ASCII whose small form has another length in UTF-8, with that form. -/
def resizedSmall : List (Nat × Nat) :=
  [(0x130, 0x69), (0x23a, 0x2c65), (0x23e, 0x2c66), (0x1e9e, 0xdf), (0x2126, 0x3c9),
    (0x212a, 0x6b), (0x212b, 0xe5), (0x2c62, 0x26b), (0x2c64, 0x27d), (0x2c6d, 0x251),
    (0x2c6e, 0x271), (0x2c6f, 0x250), (0x2c70, 0x252), (0x2c7e, 0x23f), (0x2c7f, 0x240),
    (0xa78d, 0x265), (0xa7aa, 0x266), (0xa7ab, 0x25c), (0xa7ac, 0x261), (0xa7ad, 0x26c),
    (0xa7ae, 0x26a), (0xa7b0, 0x29e), (0xa7b1, 0x287), (0xa7b2, 0x29d), (0xa7c5, 0x282),
    (0xa7cb, 0x264), (0xa7dc, 0x19b)]

/-- The small letter of a character. -/
def small (c : Char) : Char :=
  match resizedSmall.lookup c.toNat with
  | some n => Char.ofNat n
  | none => c.toLower

/-- On ASCII the small letters are those of core. -/
theorem small_of_ascii {c : Char} (h : c.toNat < 128) : small c = c.toLower := by
  have hnone : resizedSmall.lookup c.toNat = none := by
    simp only [resizedSmall, List.lookup_eq_none_iff, List.mem_cons, List.not_mem_nil, or_false,
      forall_eq_or_imp, forall_eq, bne_iff_ne, ne_eq]
    omega
  rw [small, hnone]

end Dalvik.Text
