/-!
# Numbers in messages

Hexadecimal numerals in lower case. A negative number is written with a sign in front of the
digits, and a padded field counts the sign as one of its places.
-/

namespace Dalvik.Text

/-- The hexadecimal digits of `n`, without leading zeros. -/
def hexNat (n : Nat) : String := String.ofList (Nat.toDigits 16 n)

/-- The hexadecimal numeral of an integer. -/
def hex : Int → String
  | .ofNat n => hexNat n
  | .negSucc n => "-" ++ hexNat (n + 1)

/-- The numeral `s` with zeros in front, up to `places` characters. -/
def padZeros (places : Nat) (s : String) : String :=
  String.ofList (List.replicate (places - s.length) '0') ++ s

/-- A hexadecimal numeral in a field of `places` characters, filled up with zeros. -/
def hexField (places : Nat) : Int → String
  | .ofNat n => padZeros places (hexNat n)
  | .negSucc n => "-" ++ padZeros (places - 1) (hexNat (n + 1))

/-- The text `s` with spaces after it, up to `places` characters. -/
def padRight (places : Nat) (s : String) : String :=
  s ++ String.ofList (List.replicate (places - s.length) ' ')

end Dalvik.Text
