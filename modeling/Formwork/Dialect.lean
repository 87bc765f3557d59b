import Formwork.Json

/-! What a form takes from the place where it runs: how written paths select from a document, what
written patterns match, and which characters of a domain name stand for which. -/

namespace Formwork

class Dialect where
  /-- The nodes that a written path selects from a document, unless the path does not read. -/
  select? (path : String) (document : Json) : Option (List Json)
  /-- Whether a written pattern matches some part of a text, unless the pattern does not read. -/
  matcher? (pattern : String) : Option (String → Bool)
  /-- A domain name with every character replaced by what it stands for, if all are permitted. -/
  mapDomain? (name : List Char) : Option (List Char)

def Query.first? [Dialect] (path : String) (document : Json) : Option Json :=
  (Dialect.select? path document).bind List.head?

end Formwork
