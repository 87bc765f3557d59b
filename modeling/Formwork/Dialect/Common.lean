import Formwork.Dialect
import Formwork.Pattern.Reader
import Formwork.Query.Reader
import Formwork.Url.Mapping

/-! A dialect that knows the common part of the syntax of paths and patterns. Nothing but the program
that is run and the cases worked out on fixed inputs is about this one. -/

namespace Formwork

instance Dialect.common : Dialect where
  select? path document := (Query.read? path).map fun q => q.select document
  matcher? pattern := (Pattern.read? pattern).map Pattern.isMatch
  mapDomain? := Url.Mapping.ofName?

end Formwork
