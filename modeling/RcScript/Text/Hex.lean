/-!
# Hexadecimal digits

Code points in escapes are written in lower-case hexadecimal.
-/

namespace RcScript.Text

/-- The hexadecimal digits of a number, without leading zeros. -/
def hexDigits (n : Nat) : List Char := Nat.toDigits 16 n

/-- The hexadecimal digits of a number, with zeros in front up to `width`. -/
def paddedHex (width n : Nat) : List Char :=
  List.replicate (width - (hexDigits n).length) '0' ++ hexDigits n

end RcScript.Text
