import Formwork.Settings.Codec
import Formwork.Settings.Folder

/-! Reading settings from a text or from a file. -/

namespace Formwork

inductive SettingsError where
  | inaccessible
  /-- A text is no TOML document, or holds something other than settings. -/
  | malformed
  | invalid (fault : SettingsFault)
deriving DecidableEq, Repr

namespace Settings

def parse (text : String) : Except SettingsError Settings :=
  match (Toml.read? text).bind ofToml? with
  | none => .error .malformed
  | some s =>
    match s.fault? with
    | some fault => .error (.invalid fault)
    | none => .ok s

def standardPath : String := "dynform.toml"

/-- The path of the settings: the one given, else the one in the environment, else the standard one. -/
def path (given environment : Option String) : Except SettingsError String :=
  match given, environment with
  | some path, _ => .ok path
  | none, some path =>
    if maxPathLength < path.utf8ByteSize then .error (.invalid .configPathLength) else .ok path
  | none, none => .ok standardPath

def ofBytes (bytes : ByteArray) : Except SettingsError Settings :=
  if maxFileSize < bytes.size then .error (.invalid .configSize)
  else
    match String.fromUTF8? bytes with
    | some text => parse text
    | none => .error (.invalid .configEncoding)

def load (folder : Folder) (given environment : Option String) :
    Except SettingsError Settings := do
  match folder.read? (← path given environment) with
  | some bytes => ofBytes bytes
  | none => .error .inaccessible

end Settings

end Formwork
