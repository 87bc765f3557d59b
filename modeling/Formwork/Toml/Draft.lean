import Formwork.Toml

/-! Tables while a document is being read. Each table is defined in one place: by a header of its
own, by dotted keys in one other table, or inline. -/

namespace Formwork.Toml

inductive Origin where
  /-- Only headers of tables inside it have been seen. -/
  | implied
  | dotted
  | declared
deriving DecidableEq, Repr

inductive Draft where
  | value (v : Toml)
  | table (origin : Origin) (entries : List (String × Draft))
  /-- An array of tables, of which only the last is open. -/
  | series (earlier : List Toml) (entries : List (String × Draft))

namespace Draft

mutual
def finished : Draft → Toml
  | value v => v
  | table _ entries => .table (allFinished entries)
  | series earlier entries => .array (earlier ++ [.table (allFinished entries)])
def allFinished : List (String × Draft) → List (String × Toml)
  | [] => []
  | (key, d) :: rest => (key, d.finished) :: allFinished rest
end

/-- Adds a value under a dotted key, which must be new. Only tables made by dotted keys can be
extended in this way. -/
def define? (value : Toml) : List String → Keyed Draft → Option (Keyed Draft)
  | [], _ => none
  | [key], entries =>
    if entries.contains key then none else some (entries.put key (.value value))
  | key :: path, entries =>
    match (entries.get? key).getD (.table .dotted []) with
    | .table .dotted inner =>
      (define? value path inner).map fun inner => entries.put key (.table .dotted inner)
    | _ => none

/-- Changes the table that a path leads to. A step into an array of tables leads to its last, and
missing tables on the way are implied. -/
def within? (change : Keyed Draft → Option (Keyed Draft)) :
    List String → Keyed Draft → Option (Keyed Draft)
  | [], entries => change entries
  | key :: path, entries =>
    match (entries.get? key).getD (.table .implied []) with
    | .value _ => none
    | .table origin inner =>
      (within? change path inner).map fun inner => entries.put key (.table origin inner)
    | .series earlier inner =>
      (within? change path inner).map fun inner => entries.put key (.series earlier inner)

def declare? (key : String) (entries : Keyed Draft) : Option (Keyed Draft) :=
  match (entries.get? key).getD (.table .implied []) with
  | .table .implied inner => some (entries.put key (.table .declared inner))
  | _ => none

def append? (key : String) (entries : Keyed Draft) : Option (Keyed Draft) :=
  match entries.get? key with
  | none => some (entries.put key (.series [] []))
  | some (.series earlier inner) =>
    some (entries.put key (.series (earlier ++ [.table (allFinished inner)]) []))
  | some _ => none

end Draft

inductive Statement where
  | entry (key : List String) (value : Toml)
  | header (repeated : Bool) (path : List String)

/-- A document while it is being read, and the path of the table that entries go to. -/
structure Draft.Document where
  root : Keyed Draft
  current : List String

namespace Draft.Document

def empty : Document := ⟨[], []⟩

def add? (d : Document) : Statement → Option Document
  | .entry key v =>
    (within? (define? v key) d.current d.root).map fun root => { d with root := root }
  | .header repeated path => do
    let key ← path.getLast?
    let change := if repeated then append? key else declare? key
    let root ← within? change path.dropLast d.root
    some ⟨root, path⟩

def finished (d : Document) : Toml := .table (allFinished d.root)

end Draft.Document

end Formwork.Toml
