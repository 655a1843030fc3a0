import QueryCost.Document.Token

/-!
# Parsing tokens

A parser consumes tokens and may fail. Repetition is bounded by the number of tokens left, so that every
parser is a total function. So is nesting, unless the parser is told a limit of its own.
-/
namespace QueryCost

/-- Tokens are read under a limit to nesting, if there is one. -/
abbrev Parser := ReaderT (Option Nat) (StateT (List Lexeme) Option)

namespace Parser

variable {α : Type}

/-- How many levels may nest in what comes next. Each level takes a token, so that the number of tokens is
no limit. -/
def levels : Parser Nat := do
  return (← read).getD (← get).length

def peek : Parser (Option Token) := do
  return (← get).head?.map (·.token)

def next : Parser Token := do
  match (← get) with
  | lexeme :: rest => do set rest; return lexeme.token
  | [] => failure

/-- Where the next token starts. -/
def here : Parser Location := do
  match (← get) with
  | lexeme :: _ => return lexeme.location
  | [] => failure

/-- Consume a token if it is the next one. -/
def accept (token : Token) : Parser Bool := do
  if (← peek) = some token then
    let _ ← next
    return true
  else return false

def expect (token : Token) : Parser Unit := do
  if (← accept token) then return () else failure

def punct (c : Char) : Parser Unit := expect (.punct c)
def acceptPunct (c : Char) : Parser Bool := accept (.punct c)
def word (text : String) : Parser Unit := expect (.name text)
def acceptWord (text : String) : Parser Bool := accept (.name text)

def name : Parser String := do
  match (← next) with
  | .name text => return text
  | _ => failure

/-- A description is read and dropped. -/
def description : Parser Unit := do
  match (← peek) with
  | some (.str _ _) => do let _ ← next; return ()
  | _ => return ()

/-- Items up to a closing mark, at most `bound` of them. -/
def itemsUntil (close : Char) (item : Parser α) : (bound : Nat) → Parser (List α)
  | 0 => do
    punct close
    return []
  | bound + 1 => do
    if (← acceptPunct close) then return []
    else
      let first ← item
      let rest ← itemsUntil close item bound
      return first :: rest

/-- Items between two marks. -/
def enclosed (opening close : Char) (item : Parser α) : Parser (List α) := do
  punct opening
  itemsUntil close item (← get).length

/-- One or more items between two marks. -/
def enclosedSome (opening close : Char) (item : Parser α) : Parser (List α) := do
  match (← enclosed opening close item) with
  | [] => failure
  | items => return items

/-- One or more items between two marks, or nothing at all. -/
def optionalSome (opening close : Char) (item : Parser α) : Parser (List α) := do
  if (← peek) = some (.punct opening) then enclosedSome opening close item else return []

/-- Items with a separator between them, at most `bound` after the first. -/
def separatedTail (mark : Char) (item : Parser α) : (bound : Nat) → Parser (List α)
  | 0 => return []
  | bound + 1 => do
    if (← acceptPunct mark) then
      let first ← item
      let rest ← separatedTail mark item bound
      return first :: rest
    else return []

/-- One or more items with a separator between them, and optionally one in front. -/
def separated (mark : Char) (item : Parser α) : Parser (List α) := do
  let _ ← acceptPunct mark
  let first ← item
  let rest ← separatedTail mark item (← get).length
  return first :: rest

/-- Items as long as a mark announces one, at most `bound` of them. -/
def announced (mark : Char) (item : Parser α) : (bound : Nat) → Parser (List α)
  | 0 => return []
  | bound + 1 => do
    if (← peek) = some (.punct mark) then
      let first ← item
      let rest ← announced mark item bound
      return first :: rest
    else return []

/-- Run a parser on a whole text. -/
def complete (parser : Parser α) (nesting : Option Nat) (text : String) : Option α := do
  match (← parser nesting (← Token.scan text)) with
  | (result, []) => some result
  | _ => none

end Parser

end QueryCost
