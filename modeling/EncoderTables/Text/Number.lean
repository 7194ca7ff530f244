/-!
# Numbers as text

Integers are written in decimal or in hexadecimal with a leading `0x`. A quotient by
sixty-four ends after at most six decimal places, so it is written exactly, with at
least one place. Decimal fractions also keep at least one place, so that they are never
taken for integers; very small and very large ones are written with a power of ten.
-/

namespace EncoderTables.Text

/-- A natural number in lower-case hexadecimal digits after `0x`. -/
def hexadecimal (n : Nat) : String := "0x" ++ String.ofList (Nat.toDigits 16 n)

/-- Lower-case hexadecimal digits, filled with zeros at the front up to a width. -/
def paddedHex (width : Nat) (n : Nat) : List Char :=
  let digits := Nat.toDigits 16 n
  List.replicate (width - digits.length) '0' ++ digits

/-- The exact decimal form of a number of sixty-fourths. One sixty-fourth is 15625
millionths, so six places always suffice; zeros at the end are dropped, save one
directly behind the point. -/
def sixtyFourths (n : Nat) : String :=
  let millionths := Nat.toDigits 10 (n % 64 * 15625)
  let padded := List.replicate (6 - millionths.length) '0' ++ millionths
  let places := (padded.reverse.dropWhile (· == '0')).reverse
  toString (n / 64) ++ "." ++ (if places.isEmpty then "0" else String.ofList places)

/-- The decimal digits of a number up to its last digit that is not zero. -/
def significantDigits (n : Nat) : List Char :=
  ((Nat.toDigits 10 n).reverse.dropWhile (· == '0')).reverse

/-- Digits with a point before the digit at a position, which may lie outside of them. -/
def positional (digits : List Char) (point : Int) : List Char :=
  let whole := digits.take point.toNat
  let places := List.replicate (-point).toNat '0' ++ digits.drop point.toNat
  (if whole.isEmpty then ['0'] else whole) ++
    List.replicate (point.toNat - digits.length) '0' ++ ['.'] ++
      (if places.isEmpty then ['0'] else places)

/-- Digits with a point behind the first of them, and a power of ten of two or more
digits. -/
def scientific (digits : List Char) (power : Int) : List Char :=
  let exponent := Nat.toDigits 10 power.natAbs
  digits.take 1 ++ (if digits.length ≤ 1 then [] else '.' :: digits.drop 1) ++
    ['e', if power < 0 then '-' else '+'] ++
      List.replicate (2 - exponent.length) '0' ++ exponent

/-- A number of tenths, hundredths and so on. It is written positionally from one
ten-thousandth on, as long as at most sixteen digits stand before the point. -/
def decimal (mantissa : Int) (places : Nat) : String :=
  let digits := significantDigits mantissa.natAbs
  let point : Int := (Nat.toDigits 10 mantissa.natAbs).length - places
  let text :=
    if digits.isEmpty then ['0', '.', '0']
    else if -4 < point && point ≤ 16 then positional digits point
    else scientific digits (point - 1)
  String.ofList (if mantissa < 0 then '-' :: text else text)

end EncoderTables.Text
