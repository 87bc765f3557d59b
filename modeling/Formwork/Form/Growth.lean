import Formwork.Control.Store
import Formwork.Event
import Formwork.Form.Render
import Formwork.Schema.Layout
import Formwork.Schema.LeafSpec

/-! Growing the controls of a form from its schema, node by node in written order. -/

namespace Formwork

inductive FormError where
  | structural (error : StoreError)
  | schema (error : SchemaError)
  | notAControl (path : ControlPath)
deriving DecidableEq

def FormError.message : FormError → String
  | structural error => error.message
  | schema error => error.message
  | notAControl path => "no control at path `" ++ path.text ++ "`"

structure Growth where
  store : Store
  messages : Messages
  sources : List (ControlPath × OptionSource)
  calls : List RenderCall
  events : List Event

namespace Growth

variable [Dialect]

/-- What goes wrong, with what had grown until then. -/
structure Failure where
  error : FormError
  growth : Growth

abbrev Step := Except Failure Growth

def start (messages : Messages) : Growth := ⟨.empty, messages, [], [], []⟩

def fail (g : Growth) (error : FormError) : Step := .error ⟨error, g⟩

def call (g : Growth) (c : RenderCall) : Growth := { g with calls := g.calls ++ [c] }

def allocate (g : Growth) (key : String) (parent : ControlPath) (kind : NodeKind) (n : Node) :
    Except Failure (ControlPath × Growth) :=
  match g.store.add key parent n with
  | .error error => .error ⟨.structural error, g⟩
  | .ok (path, store) =>
    .ok (path, { g with store := store, events := g.events ++ [.nodeAllocated path kind] })

def leafOf (spec : LeafSpec) (locals : List LocalValidator) (remotes : List RemoteValidator) :
    Leaf :=
  let first := (spec.inlineOptions?.bind List.head?).map SelectOption.value
  Leaf.checked { Leaf.fresh locals remotes with value := first.getD .null }

def validators (rules : RuleSet) (messages : Messages) :
    Except SchemaError (List LocalValidator × List RemoteValidator × Messages) := do
  let (locals, messages) ← LocalValidator.ofRules messages rules.locals
  let (remotes, messages) ← RemoteValidator.ofRules messages rules.remotes
  .ok (locals, remotes, messages)

def addSource (g : Growth) (path : ControlPath) (spec : LeafSpec) : Growth :=
  match spec.optionSource? with
  | some source => { g with sources := g.sources ++ [(path, source)] }
  | none => g

def growLeaf (g : Growth) (parent : ControlPath) (key : String) (node : Json) : Step :=
  if node.asObject?.isNone then g.fail (.schema (.payloadNotObject parent key))
  else
    match LeafSpec.ofJson? node with
    | none => g.fail (.schema (.malformedPayload parent key))
    | some spec =>
      match validators spec.rules g.messages with
      | .error error => g.fail (.schema error)
      | .ok (locals, remotes, messages) => do
        let grown := { g with messages := messages }
        let (path, g) ← grown.allocate key parent .leaf (.leaf (leafOf spec locals remotes))
        .ok ((g.addSource path spec).call (.control path key spec.type))

def layoutOf (members : Keyed Json) : Layout :=
  ((members.get? "config").bind Layout.ofJson?).getD .plain

mutual
/-- Grows one node under a parent. The key names it there, and the marker, which an array entry may
lack, decides whether it is a layout. -/
def growNode (parent : ControlPath) (key : String) (marker : Option String) (classes : String) :
    Json → Growth → Step
  | .object members, g =>
    match NodeKind.classify marker (.object members) with
    | .layout => growLayout parent (layoutOf members) members g
    | .group => do
      let (path, g) ← g.allocate key parent .group (.group [])
      growMembers path classes members (g.call (.group path key classes))
    | _ => g.growLeaf parent key (.object members)
  | .array entries, g =>
    if marker = some NodeKind.layoutMarker then g.fail (.schema (.layoutContent parent))
    else do
      let (path, g) ← g.allocate key parent .array (.array [])
      growEntries path 0 classes entries (g.call (.array path key entries.length classes))
  | node, g =>
    match NodeKind.classify marker node with
    | .layout => g.fail (.schema (.layoutContent parent))
    | .group => do
      let (path, g) ← g.allocate key parent .group (.group [])
      .ok (g.call (.group path key classes))
    | _ => g.growLeaf parent key node
def growLayout (parent : ControlPath) (layout : Layout) :
    List (String × Json) → Growth → Step
  | [], g => g.fail (.schema (.layoutContent parent))
  | (field, content) :: rest, g =>
    if field = "content" then
      growContent parent layout content g
    else growLayout parent layout rest g
def growContent (parent : ControlPath) (layout : Layout) : Json → Growth → Step
  | .object content, g =>
    growMembers parent layout.classes content (g.call (.layout parent layout.classes))
  | _, g => g.fail (.schema (.layoutContent parent))
def growMembers (parent : ControlPath) (classes : String) :
    List (String × Json) → Growth → Step
  | [], g => .ok g
  | (key, node) :: rest, g => do
    let g ← growNode parent key (some key) classes node g
    growMembers parent classes rest g
def growEntries (parent : ControlPath) (index : Nat) (classes : String) :
    List Json → Growth → Step
  | [], g => .ok g
  | entry :: rest, g => do
    let marker := NodeKind.entryKey? entry
    let g ← growNode parent (marker.getD (Text.natText index)) marker classes entry g
    growEntries parent (index + 1) classes rest g
end

def ofSchema (messages : Messages) : Json → Step
  | .object members => growMembers .root "" members (start messages)
  | _ => (start messages).fail (.schema .rootNotObject)

end Growth

end Formwork
