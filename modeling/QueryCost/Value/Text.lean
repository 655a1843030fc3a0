import QueryCost.Value.Basic

/-!
# Text of values

How a configured value is spelled in a message. At the top a text stands as it is; inside lists and
mappings it is quoted.
-/
namespace QueryCost.Value

def hexDigits (width n : Nat) : List Char :=
  let digits := Nat.toDigits 16 n
  List.replicate (width - digits.length) '0' ++ digits

/-- One character between the given quotes. -/
def escaped (quote c : Char) : List Char :=
  let n := c.toNat
  if c = quote ∨ c = '\\' then ['\\', c]
  else if c = '\n' then ['\\', 'n']
  else if c = '\r' then ['\\', 'r']
  else if c = '\t' then ['\\', 't']
  else if n < 32 ∨ (127 ≤ n ∧ n ≤ 160) ∨ n = 173 then '\\' :: 'x' :: hexDigits 2 n
  else [c]

/-- Single quotes, unless the text holds some and no double quote. -/
def quoted (s : String) : String :=
  let quote := if s.toList.contains '\'' && !s.toList.contains '"' then '"' else '\''
  String.ofList (quote :: (s.toList.flatMap (escaped quote)) ++ [quote])

def tupleText : List String → String
  | [] => "()"
  | [s] => "(" ++ s ++ ",)"
  | ss => "(" ++ ", ".intercalate ss ++ ")"

mutual

def nestedText : Value → String
  | .null => "None"
  | .undefined => "Undefined"
  | .bool b => if b then "True" else "False"
  | .num x => x.text
  | .str s => quoted s
  | .list items => "[" ++ ", ".intercalate (nestedTexts items) ++ "]"
  | .map entries => "\x7b" ++ ", ".intercalate (entryTexts entries) ++ "\x7d"
  | .declared base multipliers =>
    "Complexity(value=" ++ nestedText base ++ ", multipliers="
      ++ tupleText (nestedTexts multipliers) ++ ")"
  | .callable _ => "<function>"

def nestedTexts : List Value → List String
  | [] => []
  | v :: vs => nestedText v :: nestedTexts vs

def entryTexts : List (String × Value) → List String
  | [] => []
  | (k, v) :: rest => (quoted k ++ ": " ++ nestedText v) :: entryTexts rest

end

def text : Value → String
  | .str s => s
  | v => nestedText v

end QueryCost.Value
