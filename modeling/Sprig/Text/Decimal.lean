/-!
# Decimal integers

Reading a decimal integer of 64 bits: at most one sign, then one or more ASCII digits, with a value
between -2 ^ 63 and 2 ^ 63 - 1. Nothing else is accepted, no blanks and no separators.
-/

namespace Sprig.Text

/-- The value of a digit character. -/
def digitValue (c : Char) : Nat :=
  c.toNat - '0'.toNat

/-- The number that a run of digits writes in base ten. -/
def digitsValue (ds : List Char) : Nat :=
  ds.foldl (fun n c => 10 * n + digitValue c) 0

/-- The number that a text writes, if it is one or more digits and nothing else. -/
def readDigits? (ds : List Char) : Option Nat :=
  if !ds.isEmpty && ds.all Char.isDigit then some (digitsValue ds) else none

/-- The number `n` as a 64-bit integer, if it is one. -/
def toInt64? (n : Int) : Option Int64 :=
  if Int64.minValue.toInt ≤ n ∧ n ≤ Int64.maxValue.toInt then some (Int64.ofInt n) else none

/-- The 64-bit integer that a text writes in decimal. -/
def readInt64? (s : String) : Option Int64 :=
  match s.toList with
  | '-' :: ds => (readDigits? ds).bind fun n => toInt64? (-n)
  | '+' :: ds => (readDigits? ds).bind fun n => toInt64? n
  | ds => (readDigits? ds).bind fun n => toInt64? n

/-- A 64-bit integer in decimal, with a minus sign if it is negative. -/
def showInt64 (n : Int64) : String :=
  Int.repr n.toInt

theorem toInt_of_toInt64? {n : Int} {i : Int64} (h : toInt64? n = some i) : i.toInt = n := by
  unfold toInt64? at h
  split at h
  · next hn =>
    cases h
    exact Int64.toInt_ofInt_of_le hn.1 (Int.lt_add_one_of_le hn.2)
  · cases h

end Sprig.Text
