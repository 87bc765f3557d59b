import Formwork.Query
import Formwork.Text.Blank

/-! The words of a written query. -/

namespace Formwork.Query

open Text

inductive Token where
  | root
  | dot
  | star
  | opening
  | closing
  | parenOpening
  | parenClosing
  | current
  | question
  | comma
  | colon
  | both
  | either
  | relation (r : Relation)
  | quoted (text : String)
  | key (text : String)
  | blank
deriving DecidableEq

namespace Token

def isMark (c : Char) : Bool :=
  c ∈ ['.', '*', '[', ']', '(', ')', '@', '?', ',', ':', '<', '>', '=', '&', '|', '!']

/-- A root sign begins a key but does not go on with one. -/
def isKeyChar (c : Char) : Bool := !isMark c && c != '$' && !isBlank c

/-- Up to the next quotation mark, or, if a backslash stands before that, up to the one after it. -/
def scanQuoted? (quote : Char) (cs : List Char) : Option (Token × List Char) :=
  let first := cs.takeWhile (· ≠ quote)
  match cs.dropWhile (· ≠ quote) with
  | [] => none
  | _ :: rest =>
    if first.getLast? = some '\\' then
      match rest.dropWhile (· ≠ quote) with
      | [] => none
      | _ :: after =>
        some (quoted (String.ofList (first.dropLast ++ quote :: rest.takeWhile (· ≠ quote))), after)
    else some (quoted (String.ofList first), rest)

def next? : List Char → Option (Token × List Char)
  | [] => none
  | '.' :: rest => some (dot, rest)
  | '*' :: rest => some (star, rest)
  | '[' :: rest => some (opening, rest)
  | ']' :: rest => some (closing, rest)
  | '(' :: rest => some (parenOpening, rest)
  | ')' :: rest => some (parenClosing, rest)
  | '@' :: rest => some (current, rest)
  | '?' :: rest => some (question, rest)
  | ',' :: rest => some (comma, rest)
  | ':' :: rest => some (colon, rest)
  | '=' :: '=' :: rest => some (relation .eq, rest)
  | '!' :: '=' :: rest => some (relation .ne, rest)
  | '<' :: '=' :: rest => some (relation .le, rest)
  | '<' :: rest => some (relation .lt, rest)
  | '>' :: '=' :: rest => some (relation .ge, rest)
  | '>' :: rest => some (relation .gt, rest)
  | '&' :: '&' :: rest => some (both, rest)
  | '|' :: '|' :: rest => some (either, rest)
  | '\'' :: rest => scanQuoted? '\'' rest
  | '"' :: rest => scanQuoted? '"' rest
  | '$' :: rest =>
    let more := rest.takeWhile fun c => isKeyChar c || c = '$'
    some (if more.isEmpty then root else key (String.ofList ('$' :: more)), rest.drop more.length)
  | c :: rest =>
    if isMark c then none
    else if isBlank c then some (blank, rest.dropWhile isBlank)
    else some (key (String.ofList (c :: rest.takeWhile isKeyChar)), rest.dropWhile isKeyChar)

def scan : Nat → List Char → List Token
  | 0, _ => []
  | fuel + 1, cs =>
    match next? cs with
    | some (t, rest) => t :: scan fuel rest
    | none => []

def ofText (text : String) : List Token := scan text.toList.length text.toList

end Token

end Formwork.Query
