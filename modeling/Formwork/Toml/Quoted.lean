import Formwork.Text.Numeral

/-! Quoted texts of a TOML document. Between quotation marks a backslash starts an escape, between
apostrophes it stands for itself. Three marks enclose a text of several lines. -/

namespace Formwork.Toml

open Text

/-- The characters that may be written in a document as they are, line ends apart. -/
def isPlain (c : Char) : Bool := c = '\t' || (32 ≤ c.toNat && c.toNat ≠ 127)

def isSpace (c : Char) : Bool := c = ' ' || c = '\t'

def skipSpace (cs : List Char) : List Char := cs.dropWhile isSpace

def skipLines : List Char → List Char
  | '\r' :: '\n' :: cs => skipLines cs
  | '\n' :: cs => skipLines cs
  | c :: cs => if isSpace c then skipLines cs else c :: cs
  | [] => []

def readLineEnd? : List Char → Option (List Char)
  | '\n' :: rest => some rest
  | '\r' :: '\n' :: rest => some rest
  | _ => none

def readCode? (digits : Nat) (cs : List Char) : Option (Char × List Char) := do
  let code ← readNat? 16 (cs.take digits)
  if digits ≤ cs.length ∧ code.isValidChar then some (Char.ofNat code, cs.drop digits) else none

def readEscape? : List Char → Option (Char × List Char)
  | '"' :: rest => some ('"', rest)
  | '\\' :: rest => some ('\\', rest)
  | 'b' :: rest => some ('\x08', rest)
  | 'e' :: rest => some ('\x1b', rest)
  | 'f' :: rest => some ('\x0c', rest)
  | 'n' :: rest => some ('\n', rest)
  | 'r' :: rest => some ('\r', rest)
  | 't' :: rest => some ('\t', rest)
  | 'x' :: rest => readCode? 2 rest
  | 'u' :: rest => readCode? 4 rest
  | 'U' :: rest => readCode? 8 rest
  | _ => none

def isContent (quote c : Char) : Bool := isPlain c && c ≠ quote && (quote ≠ '"' || c ≠ '\\')

/-- Reads a text of one line up to its closing quote. The fuel bounds the number of escapes. -/
def readShort? (quote : Char) : Nat → List Char → Option (List Char × List Char)
  | 0, _ => none
  | fuel + 1, cs =>
    let content := cs.takeWhile (isContent quote)
    match cs.dropWhile (isContent quote) with
    | [] => none
    | c :: rest =>
      if c = quote then some (content, rest)
      else if c = '\\' then do
        let (escaped, rest) ← readEscape? rest
        let (more, rest) ← readShort? quote fuel rest
        some (content ++ escaped :: more, rest)
      else none

/-- A line end after a backslash, with white space before it, stands for nothing, as do the white
space and line ends after it. -/
def readContinuation? (cs : List Char) : Option (List Char) :=
  (readLineEnd? (skipSpace cs)).map skipLines

/-- Reads a text of several lines up to its three closing quotes. Up to two quotes directly before
these belong to the text. The fuel bounds the number of escapes, line ends and quotes. -/
def readLong? (quote : Char) : Nat → List Char → Option (List Char × List Char)
  | 0, _ => none
  | fuel + 1, cs =>
    let content := cs.takeWhile (isContent quote)
    let goOn (before : List Char) (rest : List Char) : Option (List Char × List Char) :=
      (readLong? quote fuel rest).map fun (more, rest) => (content ++ before ++ more, rest)
    match cs.dropWhile (isContent quote) with
    | [] => none
    | '\n' :: rest => goOn ['\n'] rest
    | '\r' :: '\n' :: rest => goOn ['\r', '\n'] rest
    | c :: rest =>
      if c = quote then
        let run := rest.takeWhile (· = quote)
        let after := rest.dropWhile (· = quote)
        if run.length < 2 then goOn (c :: run) after
        else if run.length < 5 then some (content ++ run.drop 2, after)
        else none
      else if c = '\\' then
        match readContinuation? rest with
        | some rest => goOn [] rest
        | none =>
          match readEscape? rest with
          | some (escaped, rest) => goOn [escaped] rest
          | none => none
      else none

def isQuote (c : Char) : Bool := c = '"' || c = '\x27'

def readLine? : List Char → Option (String × List Char)
  | [] => none
  | quote :: rest =>
    if isQuote quote then
      (readShort? quote (rest.length + 1) rest).map fun (text, rest) => (String.ofList text, rest)
    else none

/-- A quoted text. A line end directly after three opening quotes does not belong to it. -/
def readText? : List Char → Option (String × List Char)
  | a :: b :: c :: rest =>
    if isQuote a ∧ b = a ∧ c = a then
      let body := (readLineEnd? rest).getD rest
      (readLong? a (body.length + 1) body).map fun (text, rest) => (String.ofList text, rest)
    else readLine? (a :: b :: c :: rest)
  | cs => readLine? cs

end Formwork.Toml
