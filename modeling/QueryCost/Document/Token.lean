import QueryCost.Document.Basic

/-!
# Tokens

The lexical grammar. Blanks, commas, byte order marks and comments separate tokens and are dropped.
The first line and column of each token are kept.
-/
namespace QueryCost

inductive Token where
  | punct (c : Char)
  | ellipsis
  | name (text : String)
  | int (digits : String)
  | float (digits : String)
  | str (text : String) (block : Bool)
  deriving DecidableEq, Repr

structure Lexeme where
  token : Token
  location : Location
  deriving DecidableEq, Repr

namespace Token

/-- The place after some characters. A carriage return and a line feed end one line together. -/
def advance : Location → List Char → Location
  | loc, [] => loc
  | loc, '\r' :: '\n' :: rest => advance ⟨loc.line + 1, 1⟩ rest
  | loc, c :: rest =>
    if c = '\n' ∨ c = '\r' then advance ⟨loc.line + 1, 1⟩ rest
    else advance ⟨loc.line, loc.column + 1⟩ rest

def isDigit (c : Char) : Bool := '0' ≤ c && c ≤ '9'

def isNameStart (c : Char) : Bool :=
  ('a' ≤ c && c ≤ 'z') || ('A' ≤ c && c ≤ 'Z') || c == '_'

def isNamePart (c : Char) : Bool := isNameStart c || isDigit c

def isIgnored (c : Char) : Bool :=
  c == ' ' || c == '\t' || c == ',' || c == '\n' || c == '\r' || c == '\ufeff'

def isPunctuator (c : Char) : Bool :=
  ['!', '$', '&', '(', ')', ':', '=', '@', '[', ']', '\x7b', '|', '\x7d'].contains c

def isLineEnd (c : Char) : Bool := c == '\n' || c == '\r'

/-- At least one digit, and what follows the digits. -/
def digits? (cs : List Char) : Option (List Char × List Char) :=
  match cs.takeWhile isDigit with
  | [] => none
  | ds => some (ds, cs.dropWhile isDigit)

/-- The integer part of a number: no digit follows a leading zero. -/
def wholePart? : List Char → Option (List Char × List Char)
  | '0' :: rest => if (rest.head?.map isDigit).getD false then none else some (['0'], rest)
  | cs => digits? cs

def fractionPart? : List Char → Option (List Char × List Char)
  | '.' :: rest => do
    let (ds, rest) ← digits? rest
    return ('.' :: ds, rest)
  | cs => some ([], cs)

def exponentPart? : List Char → Option (List Char × List Char)
  | c :: rest =>
    if c = 'e' ∨ c = 'E' then do
      let (sign, rest) := match rest with
        | '+' :: rest => (['+'], rest)
        | '-' :: rest => (['-'], rest)
        | rest => ([], rest)
      let (ds, rest) ← digits? rest
      return (c :: sign ++ ds, rest)
    else some ([], c :: rest)
  | [] => some ([], [])

/-- Whether a number would run into a point or a name. -/
def gluesToNumber (cs : List Char) : Bool :=
  match cs with
  | c :: _ => c == '.' || isNameStart c
  | [] => false

/-- A number, its text and the rest. -/
def number? (cs : List Char) : Option (Token × List Char × List Char) := do
  let (sign, cs) := match cs with
    | '-' :: rest => (['-'], rest)
    | cs => ([], cs)
  let (whole, cs) ← wholePart? cs
  let (fraction, cs) ← fractionPart? cs
  let (exponent, cs) ← exponentPart? cs
  if gluesToNumber cs then none
  else
    let text := sign ++ whole ++ fraction ++ exponent
    let token := if fraction ++ exponent = [] then Token.int (String.ofList text)
      else Token.float (String.ofList text)
    return (token, text, cs)

def hexDigit? (c : Char) : Option Nat :=
  if isDigit c then some (c.toNat - '0'.toNat)
  else if 'a' ≤ c ∧ c ≤ 'f' then some (c.toNat - 'a'.toNat + 10)
  else if 'A' ≤ c ∧ c ≤ 'F' then some (c.toNat - 'A'.toNat + 10)
  else none

def hexCode? (a b c d : Char) : Option Nat := do
  return 4096 * (← hexDigit? a) + 256 * (← hexDigit? b) + 16 * (← hexDigit? c) + (← hexDigit? d)

def isScalar (n : Nat) : Bool := n ≤ 0xD7FF || (0xE000 ≤ n && n ≤ 0x10FFFF)

def simpleEscape? (c : Char) : Option Char :=
  match c with
  | '"' => some '"'
  | '\\' => some '\\'
  | '/' => some '/'
  | 'b' => some '\x08'
  | 'f' => some '\x0c'
  | 'n' => some '\n'
  | 'r' => some '\r'
  | 't' => some '\t'
  | _ => none

/-- The text of a string up to its closing quote, and the rest. Inside a braced escape `code` holds
the code point read so far and its number of digits. -/
def string? (code : Option (Nat × Nat)) : List Char → Option (List Char × List Char)
  | [] => none
  | c :: rest =>
    match code with
    | some (point, count) =>
      if c = '\x7d' then
        if 0 < count ∧ isScalar point then prepend (Char.ofNat point) (string? none rest)
        else none
      else if count < 8 then
        match hexDigit? c with
        | some h => string? (some (16 * point + h, count + 1)) rest
        | none => none
      else none
    | none =>
      match c, rest with
      | '"', rest => some ([], rest)
      | '\\', 'u' :: '\x7b' :: rest => string? (some (0, 0)) rest
      | '\\', 'u' :: p :: q :: r :: s :: rest =>
        match hexCode? p q r s with
        | none => none
        | some high =>
          if isScalar high then prepend (Char.ofNat high) (string? none rest)
          else if high ≤ 0xDBFF then
            match rest with
            | '\\' :: 'u' :: t :: u :: v :: w :: rest =>
              match hexCode? t u v w with
              | some low =>
                if 0xDC00 ≤ low ∧ low ≤ 0xDFFF then
                  let point := 0x10000 + 1024 * (high - 0xD800) + (low - 0xDC00)
                  prepend (Char.ofNat point) (string? none rest)
                else none
              | none => none
            | _ => none
          else none
      | '\\', e :: rest => match simpleEscape? e with
        | some c => prepend c (string? none rest)
        | none => none
      | c, rest => if isLineEnd c ∨ c = '\\' then none else prepend c (string? none rest)
where
  prepend (c : Char) (r : Option (List Char × List Char)) : Option (List Char × List Char) :=
    r.map fun (text, rest) => (c :: text, rest)

/-- The raw text of a block string up to its closing quotes, and the rest. -/
def rawBlock? : List Char → Option (List Char × List Char)
  | '"' :: '"' :: '"' :: rest => some ([], rest)
  | '\\' :: '"' :: '"' :: '"' :: rest =>
    (rawBlock? rest).map fun (text, rest) => ('"' :: '"' :: '"' :: text, rest)
  | c :: rest => (rawBlock? rest).map fun (text, rest) => (c :: text, rest)
  | [] => none

/-- Lines of a text; there is always at least one. -/
def lines : List Char → List (List Char)
  | [] => [[]]
  | '\r' :: '\n' :: rest => [] :: lines rest
  | c :: rest =>
    if isLineEnd c then [] :: lines rest
    else match lines rest with
      | line :: more => (c :: line) :: more
      | [] => [[c]]

def isIndent (c : Char) : Bool := c == ' ' || c == '\t'
def isBlankLine (line : List Char) : Bool := line.all isIndent

/-- Smallest indentation of the lines that are not blank, the first line left out. -/
def commonIndent (lines : List (List Char)) : Nat :=
  let indents := (lines.tail.filter (!isBlankLine ·)).map fun line => (line.takeWhile isIndent).length
  (indents.min?).getD 0

/-- A block string without its common indentation and without blank lines at its ends. -/
def dedent (raw : List Char) : List Char :=
  let ls := lines raw
  let indent := commonIndent ls
  let trimmed : List (List Char) := match ls with
    | first :: rest => first :: rest.map fun line => line.drop indent
    | [] => []
  let marked := (trimmed.zip (ls.map isBlankLine)).dropWhile fun line => line.2
  let kept := (marked.reverse.dropWhile fun line => line.2).reverse.map fun line => line.1
  (kept.intersperse ['\n']).flatten

/-- All tokens of a text; `fuel` bounds their number and that of the characters between them. -/
def scanFuel : (fuel : Nat) → Location → List Char → Option (List Lexeme)
  | 0, _, _ => none
  | fuel + 1, loc, cs =>
    match cs with
    | [] => some []
    | '#' :: rest =>
      let comment := rest.takeWhile (!isLineEnd ·)
      scanFuel fuel ⟨loc.line, loc.column + 1 + comment.length⟩ (rest.dropWhile (!isLineEnd ·))
    | '.' :: '.' :: '.' :: rest => emit .ellipsis loc (scanFuel fuel ⟨loc.line, loc.column + 3⟩ rest)
    | '"' :: '"' :: '"' :: rest => do
      let (raw, after) ← rawBlock? rest
      let read := cs.take (cs.length - after.length)
      emit (.str (String.ofList (dedent raw)) true) loc (scanFuel fuel (advance loc read) after)
    | '"' :: rest => do
      let (text, after) ← string? none rest
      let read := cs.take (cs.length - after.length)
      emit (.str (String.ofList text) false) loc (scanFuel fuel (advance loc read) after)
    | '\r' :: '\n' :: rest => scanFuel fuel ⟨loc.line + 1, 1⟩ rest
    | c :: rest =>
      if isIgnored c then scanFuel fuel (advance loc [c]) rest
      else if isPunctuator c then
        emit (.punct c) loc (scanFuel fuel ⟨loc.line, loc.column + 1⟩ rest)
      else if isNameStart c then
        let word := cs.takeWhile isNamePart
        emit (.name (String.ofList word)) loc
          (scanFuel fuel ⟨loc.line, loc.column + word.length⟩ (cs.dropWhile isNamePart))
      else if isDigit c ∨ c = '-' then do
        let (token, text, after) ← number? cs
        emit token loc (scanFuel fuel ⟨loc.line, loc.column + text.length⟩ after)
      else none
where
  emit (token : Token) (loc : Location) (rest : Option (List Lexeme)) : Option (List Lexeme) :=
    rest.map (⟨token, loc⟩ :: ·)

/-- The tokens of a text, if it has the lexical form of a document. -/
def scan (text : String) : Option (List Lexeme) :=
  let cs := text.toList
  scanFuel (cs.length + 1) ⟨1, 1⟩ cs

end Token

end QueryCost
