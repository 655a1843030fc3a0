import QueryCost.Text.CaseTable

/-!
# Cases of names

Lower-casing: each character has a lower-case form of its own, with two exceptions: the capital I with a
dot becomes two characters, and a capital sigma at the end of a word takes its final form.

Camel case: words joined by underscores become one name in which every word after the first is
capitalised. An empty word stands for an underscore of the name.

Snake case (`to_snake_case`): names in camel case become words joined by underscores. First a break
before each capital that starts a lower-case word, then one between a small letter or digit and a
capital, then all is lower-cased.
-/
namespace QueryCost.Text

def lowerChar (c : Char) : Char :=
  if c.toNat < 128 then c.toLower
  else match lowerRuns.find? (·.covers c.toNat) with
    | some run => Char.ofNat (c.toNat + run.shift).toNat
    | none => c

def isCaseIgnorable (c : Char) : Bool := caseIgnorable.covers c.toNat
def isCased (c : Char) : Bool := cased.covers c.toNat

/-- Whether the nearest character that counts is a letter with case. -/
def meetsCased (cs : List Char) : Bool :=
  match cs.dropWhile isCaseIgnorable with
  | c :: _ => isCased c
  | [] => false

/-- The lower-case form of a character between what stands before it, nearest first, and after. -/
def lowerBetween (before : List Char) (c : Char) (after : List Char) : List Char :=
  if c = 'Σ' then [if meetsCased before && !meetsCased after then 'ς' else 'σ']
  else if c = 'İ' then ['i', '̇']
  else [lowerChar c]

def lowerFrom (before : List Char) : List Char → List Char
  | [] => []
  | c :: after => lowerBetween before c after ++ lowerFrom (c :: before) after

def lower (cs : List Char) : List Char := lowerFrom [] cs

/-- Split at underscores; there is always at least one word. -/
def splitWords : List Char → List (List Char)
  | [] => [[]]
  | c :: rest =>
    if c = '_' then [] :: splitWords rest
    else match splitWords rest with
      | word :: more => (c :: word) :: more
      | [] => [[c]]

def capitalize : List Char → List Char
  | [] => ['_']
  | c :: rest => c.toUpper :: lower rest

def camelChars (cs : List Char) : List Char :=
  match splitWords cs with
  | first :: rest => first ++ rest.flatMap capitalize
  | [] => []

def camelCase (name : String) : String :=
  String.ofList (camelChars name.toList)

def isSmall (c : Char) : Bool := 'a' ≤ c && c ≤ 'z'
def isCapital (c : Char) : Bool := 'A' ≤ c && c ≤ 'Z'
def isNumeral (c : Char) : Bool := '0' ≤ c && c ≤ '9'

/-- Break before a capital followed by small letters. The word so found is passed over before the
next break is looked for, and a line end does not take a break after it. -/
def breakWords (inWord : Bool) : List Char → List Char
  | c :: u :: l :: rest =>
    if inWord && isSmall c then c :: breakWords true (u :: l :: rest)
    else if c ≠ '\n' ∧ isCapital u ∧ isSmall l then
      c :: '_' :: u :: breakWords true (l :: rest)
    else c :: breakWords false (u :: l :: rest)
  | cs => cs

/-- Break between a small letter or digit and a capital. -/
def breakCase : List Char → List Char
  | c :: u :: rest =>
    if (isSmall c || isNumeral c) && isCapital u then c :: '_' :: u :: breakCase rest
    else c :: breakCase (u :: rest)
  | cs => cs

def snakeChars (cs : List Char) : List Char :=
  lower (breakCase (breakWords false cs))

def snakeCase (name : String) : String :=
  String.ofList (snakeChars name.toList)

end QueryCost.Text
