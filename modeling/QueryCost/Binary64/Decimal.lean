import QueryCost.Binary64.Basic

/-!
# Decimal text to binary64

The accepted texts are an optional sign, then `inf`, `infinity` or `nan` in any case, or decimal
digits with an optional fraction and exponent, where single underscores may stand between digits.
White space around the text is ignored. The result is the double nearest to the written value.
-/
namespace QueryCost.Binary64

/-- The double nearest to `digits * 10 ^ exponent`. Far outside the range of doubles the answer is
known from the number of digits alone, and no large power is computed. -/
def ofDecimal (negative : Bool) (digits : Nat) (exponent : Int) : Binary64 :=
  let magnitude := ((Nat.toDigits 10 digits).length : Int) + exponent
  if digits = 0 ∨ magnitude < -330 then finite negative 0
  else if 320 < magnitude then infinite negative
  else round negative (digits * Nat.pow 10 exponent.toNat * unitsOfOne) (Nat.pow 10 (-exponent).toNat)

/-- White space as text readers of numbers see it. -/
def isBlank (c : Char) : Bool :=
  let n := c.toNat
  (9 ≤ n && n ≤ 13) || (28 ≤ n && n ≤ 32) || n == 0x85 || n == 0xA0 || n == 0x1680
    || (0x2000 ≤ n && n ≤ 0x200A) || n == 0x2028 || n == 0x2029 || n == 0x202F || n == 0x205F
    || n == 0x3000

def trimBlanks (cs : List Char) : List Char :=
  ((cs.dropWhile isBlank).reverse.dropWhile isBlank).reverse

/-- Drop the underscores that stand between two digits; `none` if one stands elsewhere. -/
def dropSeparators : List Char → Option (List Char)
  | [] => some []
  | '_' :: _ => none
  | [c] => some [c]
  | c :: '_' :: d :: rest =>
    if c.isDigit && d.isDigit then (dropSeparators (d :: rest)).map (c :: ·) else none
  | c :: rest => (dropSeparators rest).map (c :: ·)

def naturalOf (digits : List Char) : Nat :=
  digits.foldl (fun n c => 10 * n + (c.toNat - '0'.toNat)) 0

/-- The sign in front of a text. -/
def splitSign : List Char → Bool × List Char
  | '-' :: rest => (true, rest)
  | '+' :: rest => (false, rest)
  | cs => (false, cs)

/-- The exponent part after the digits, zero if there is none. -/
def exponentOf? : List Char → Option Int
  | [] => some 0
  | c :: rest =>
    if c = 'e' ∨ c = 'E' then
      let (negative, digits) := splitSign rest
      if digits ≠ [] ∧ digits.all Char.isDigit then some (signed negative (naturalOf digits))
      else none
    else none

def ofDigits? (negative : Bool) (cs : List Char) : Option Binary64 :=
  let whole := cs.takeWhile Char.isDigit
  let afterWhole := cs.dropWhile Char.isDigit
  let pointed := afterWhole.head? = some '.'
  let afterPoint := if pointed then afterWhole.tail else afterWhole
  let fraction := if pointed then afterPoint.takeWhile Char.isDigit else []
  let rest := if pointed then afterPoint.dropWhile Char.isDigit else afterPoint
  if whole = [] ∧ fraction = [] then none
  else do
    let exponent ← exponentOf? rest
    return ofDecimal negative (naturalOf (whole ++ fraction)) (exponent - fraction.length)

/-- Read a double. -/
def ofText? (text : String) : Option Binary64 := do
  let cs ← dropSeparators (trimBlanks text.toList)
  let (negative, body) := splitSign cs
  match String.ofList (body.map Char.toLower) with
  | "inf" => some (infinite negative)
  | "infinity" => some (infinite negative)
  | "nan" => some nan
  | _ => ofDigits? negative body

end QueryCost.Binary64
