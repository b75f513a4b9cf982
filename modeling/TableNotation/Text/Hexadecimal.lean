/-!
# Digits up to sixteen

The number that digits of a base up to sixteen write, letters of either case being
the digits from ten on.

* `Text.numberInBase?` reads digits of a base, and `Text.hexNumber?` those of the
  base sixteen.
-/

namespace TableNotation.Text

/-- The number of a hexadecimal digit. -/
def hexDigit? (c : Char) : Option Nat :=
  if c.isDigit then some (c.toNat - 48)
  else if 'a' ≤ c && c ≤ 'f' then some (c.toNat - 87)
  else if 'A' ≤ c && c ≤ 'F' then some (c.toNat - 55)
  else none

/-- The number of digits of a base, none of which may be as large as the base. -/
def numberInBase? (base : Nat) (digits : List Char) : Option Nat :=
  digits.foldlM (fun n c => ((hexDigit? c).filter (· < base)).map (n * base + ·)) 0

/-- The number of hexadecimal digits. -/
def hexNumber? (digits : List Char) : Option Nat := numberInBase? 16 digits

example : numberInBase? 16 ['d', 'E', '0', 'f'] = some 0xdE0f := by decide

example : numberInBase? 8 ['7', '8'] = none := by decide

end TableNotation.Text
