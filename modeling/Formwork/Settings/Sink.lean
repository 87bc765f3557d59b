import Formwork.Dialect.Common
import Formwork.Settings.Loading

/-! The place that events are written to, one line for each. -/

namespace Formwork

inductive Sink where
  | stderr
  | file (name : String)
  | none
deriving DecidableEq, Repr

namespace Sink

def ofSettings (s : Settings) : Except SettingsError Sink :=
  match s.events.sink, s.events.path with
  | .stderr, _ => .ok .stderr
  | .none, _ => .ok .none
  | .file, Option.none => .error (.invalid .sinkPathNeeded)
  | .file, some path =>
    match Folder.name? path with
    | some name => .ok (.file name)
    | Option.none => .error .inaccessible

def inFile? (events : List Event) : Sink → Option (List Event)
  | file _ => some events
  | _ => Option.none

def onStderr (events : List Event) : Sink → List Event
  | stderr => events
  | _ => []

end Sink

end Formwork
