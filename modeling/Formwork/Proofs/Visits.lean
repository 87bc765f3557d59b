import Formwork.Proofs.Flattening

/-! What is reported while a form grows. The nodes of the schema are visited in written order, each
before the nodes inside it; the renderer hears of each, and the watchers of those that get a control. -/

namespace Formwork

open Node (Branch)

inductive Enclosure where
  | layout (layout : Layout)
  | control (path : ControlPath)

namespace Enclosure

def path? : Enclosure → Option ControlPath
  | layout _ => none
  | control path => some path

def classes? : Enclosure → Option String
  | layout l => some l.classes
  | control _ => none

end Enclosure

abbrev Trail := List Enclosure

namespace Trail

def parent (t : Trail) : ControlPath := (t.findSome? Enclosure.path?).getD .root

def classes (t : Trail) : String := (t.findSome? Enclosure.classes?).getD ""

end Trail

def RenderCall.control? : RenderCall → Option (ControlPath × NodeKind)
  | layout _ _ => none
  | group path _ _ => some (path, .group)
  | array path _ _ _ => some (path, .array)
  | control path _ _ => some (path, .leaf)

structure Visit where
  trail : Trail
  /-- Where the control of the node lies in the innermost control. A layout gets no control. -/
  branch : Option Branch
  key : String
  kind : NodeKind
  node : Json

namespace Visit

def path (v : Visit) : ControlPath := (v.branch.map v.trail.parent.child).getD v.trail.parent

def call (v : Visit) : RenderCall :=
  match v.kind with
  | .layout => .layout v.path (Growth.layoutOf (v.node.asObject?.getD [])).classes
  | .group => .group v.path v.key v.trail.classes
  | .array => .array v.path v.key (v.node.asArray?.getD []).length v.trail.classes
  | .leaf => .control v.path v.key (((LeafSpec.ofJson? v.node).map LeafSpec.type).getD "")

theorem control?_call {v : Visit} (h : v.kind ≠ .layout) : v.call.control? = some (v.path, v.kind) := by
  obtain ⟨t, branch, key, kind, node⟩ := v
  cases kind with
  | layout => exact absurd rfl h
  | _ => rfl

/-- The place of the next control in a group, or in an array that already has some. -/
def slot (key : String) : Option Nat → Branch
  | none => .key key
  | some count => .index count

mutual
/-- A node and all nodes inside it in written order. `count` is the number of controls before it if it
lies in an array. -/
def ofNode (t : Trail) (count : Option Nat) (key : String) (marker : Option String) :
    Json → List Visit
  | .object members =>
    match NodeKind.classify marker (.object members) with
    | .layout =>
      ⟨t, none, key, .layout, .object members⟩ ::
        ofLayout (.layout (Growth.layoutOf members) :: t) count members
    | .group =>
      ⟨t, some (slot key count), key, .group, .object members⟩ ::
        ofMembers (.control (t.parent.child (slot key count)) :: t) none members
    | _ => [⟨t, some (slot key count), key, .leaf, .object members⟩]
  | .array entries =>
    if marker = some NodeKind.layoutMarker then [⟨t, none, key, .layout, .array entries⟩]
    else
      ⟨t, some (slot key count), key, .array, .array entries⟩ ::
        ofEntries (.control (t.parent.child (slot key count)) :: t) 0 0 entries
  | node =>
    match NodeKind.classify marker node with
    | .layout => [⟨t, none, key, .layout, node⟩]
    | kind => [⟨t, some (slot key count), key, kind, node⟩]
def ofLayout (t : Trail) (count : Option Nat) : List (String × Json) → List Visit
  | [] => []
  | (field, content) :: rest =>
    if field = "content" then ofContent t count content else ofLayout t count rest
def ofContent (t : Trail) (count : Option Nat) : Json → List Visit
  | .object content => ofMembers t count content
  | _ => []
def ofMembers (t : Trail) (count : Option Nat) : List (String × Json) → List Visit
  | [] => []
  | (key, node) :: rest =>
    ofNode t count key (some key) node ++
      ofMembers t (count.map (· + (Outline.ofNode key (some key) node).length)) rest
def ofEntries (t : Trail) (count index : Nat) : List Json → List Visit
  | [] => []
  | entry :: rest =>
    let marker := NodeKind.entryKey? entry
    let key := marker.getD (Text.natText index)
    ofNode t (some count) key marker entry ++
      ofEntries t (count + (Outline.ofNode key marker entry).length) (index + 1) rest
end

theorem ofLayout_eq (t : Trail) (count : Option Nat) (members : List (String × Json)) :
    ofLayout t count members =
      match (Keyed.get? "content" members).bind Json.asObject? with
      | some content => ofMembers t count content
      | none => [] := by
  induction members with
  | nil => rfl
  | cons m members ih =>
    obtain ⟨field, content⟩ := m
    rw [ofLayout, Keyed.get?_cons]
    by_cases hf : field = "content"
    · rw [if_pos hf, if_pos hf]
      cases content <;> rfl
    · rw [if_neg hf, if_neg hf, ih]

theorem ofNode_eq (t : Trail) (count : Option Nat) (key : String) (marker : Option String)
    (node : Json) :
    ofNode t count key marker node =
      match NodeKind.classify marker node with
      | .layout =>
        ⟨t, none, key, .layout, node⟩ ::
          match (node.member? "content").bind Json.asObject? with
          | some content =>
            ofMembers (.layout (Growth.layoutOf (node.asObject?.getD [])) :: t) count content
          | none => []
      | .group =>
        ⟨t, some (slot key count), key, .group, node⟩ ::
          ofMembers (.control (t.parent.child (slot key count)) :: t) none (node.asObject?.getD [])
      | .array =>
        ⟨t, some (slot key count), key, .array, node⟩ ::
          ofEntries (.control (t.parent.child (slot key count)) :: t) 0 0 (node.asArray?.getD [])
      | .leaf => [⟨t, some (slot key count), key, .leaf, node⟩] := by
  by_cases hm : marker = some NodeKind.layoutMarker
  · cases node <;> simp [ofNode, NodeKind.classify, hm, Json.member?, Json.asObject?, ofLayout_eq]
  · cases node with
    | object members =>
      cases hc : members.all fun m => m.2.isContainer || m.2.isNull <;>
        simp [ofNode, NodeKind.classify, hm, hc, Json.asObject?]
    | _ => simp [ofNode, ofMembers, NodeKind.classify, hm, Json.asArray?, Json.asObject?]

def ofSchema (members : List (String × Json)) : List Visit := ofMembers [] none members

end Visit

namespace Node

def count? : Node → Option Nat
  | array children => some children.length
  | _ => none

theorem eq_slot_of_place {c : Node} {key : String} {b : Branch} (h : c.place? key = some b) :
    b = Visit.slot key c.count? := by
  cases c with
  | group children =>
    obtain ⟨rfl, -, -⟩ := place?_group h
    rfl
  | array children =>
    cases h
    rfl
  | leaf l => cases h

theorem count?_planted [Dialect] (c : Node) (os : List (String × Outline)) :
    (c.planted os).count? = c.count?.map (· + os.length) := by
  cases c with
  | group children =>
    rw [planted_group]
    rfl
  | array children =>
    have hlength : ∀ os : List Outline, (Outline.entryNodes os).length = os.length := by
      intro os
      induction os with
      | nil => rfl
      | cons o os ih => exact congrArg (· + 1) ih
    rw [planted_array]
    simp [count?, hlength]
  | leaf l =>
    have hbare := bare_planted (.leaf l) os
    generalize (Node.leaf l).planted os = n at hbare
    cases n with
    | leaf _ => rfl
    | _ => cases hbare

end Node

namespace Growth

def Reports (g : Growth) (vs : List Visit) (step : Step) : Prop :=
  ∀ g', step = .ok g' → g'.calls = g.calls ++ vs.map Visit.call ∧
    g'.events = g.events ++
      ((vs.map Visit.call).filterMap RenderCall.control?).map fun c => .nodeAllocated c.1 c.2

theorem reports_ok {g g' : Growth} (hcalls : g'.calls = g.calls) (hevents : g'.events = g.events) :
    Reports g [] (.ok g') := by
  rintro _ ⟨⟩
  exact ⟨hcalls.trans (List.append_nil _).symm, hevents.trans (List.append_nil _).symm⟩

theorem reports_error (g : Growth) (vs : List Visit) (e : Failure) : Reports g vs (.error e) := nofun

theorem Reports.bind {g : Growth} {vs vs' : List Visit} {r : Step} {k : Growth → Step}
    (h : Reports g vs r) (hk : ∀ g', r = .ok g' → Reports g' vs' (k g')) :
    Reports g (vs ++ vs') (r.bind k) := by
  intro g'' hg
  cases r with
  | error e => cases hg
  | ok g' =>
    obtain ⟨hcalls, hevents⟩ := h g' rfl
    obtain ⟨hcalls', hevents'⟩ := hk g' rfl g'' hg
    constructor
    · rw [hcalls', hcalls, List.map_append, List.append_assoc]
    · rw [hevents', hevents, List.map_append, List.filterMap_append, List.map_append, List.append_assoc]

/-- What gets no control is reported to the renderer only. -/
theorem Reports.of_call {g : Growth} {v : Visit} {vs : List Visit} {r : Step}
    (h : Reports (g.call v.call) vs r) (hv : v.call.control? = none) : Reports g (v :: vs) r := by
  intro g' hg
  obtain ⟨hcalls, hevents⟩ := h g' hg
  constructor
  · rw [hcalls, call, List.append_assoc]
    rfl
  · rw [hevents, List.map_cons, List.filterMap_cons_none hv]
    rfl

theorem reports_opened {base c n : Node} {t : Trail} {g : Growth} {key : String} {kind : NodeKind}
    {node : Json} {vs : List Visit} {k : ControlPath × Growth → Step}
    (hkind : kind ≠ .layout) (h : Focus base t.parent c g)
    (hkey : c.bare = .group [] → '.' ∉ key.toList)
    (hk : ∀ g', Focus g'.store.root (t.parent.child (Visit.slot key c.count?)) n g' →
      Reports (g'.call (Visit.call ⟨t, some (Visit.slot key c.count?), key, kind, node⟩)) vs
        (k (t.parent.child (Visit.slot key c.count?), g'))) :
    Reports g (⟨t, some (Visit.slot key c.count?), key, kind, node⟩ :: vs)
      ((g.allocate key t.parent kind n).bind k) := by
  cases hb : c.place? key with
  | none =>
    obtain ⟨e, he⟩ := allocate_of_no_place h hb kind n
    rw [he]
    exact reports_error g _ e
  | some b =>
    obtain rfl := Node.eq_slot_of_place hb
    obtain ⟨g₁, hok, -, hfocus⟩ := allocate_of_place h hb kind n
    obtain ⟨store, -, hg₁⟩ := allocate_eq_ok hok
    have hcalls : g₁.calls = g.calls := by rw [hg₁]
    have hevents : g₁.events =
        g.events ++ [.nodeAllocated (t.parent.child (Visit.slot key c.count?)) kind] := by rw [hg₁]
    have hplain := Node.plain_of_place hb hkey
    have hrest := hk g₁ (hfocus.enter h.group_of_root hb hplain)
    intro g' hg
    rw [hok] at hg
    obtain ⟨hcalls', hevents'⟩ := hrest g' hg
    constructor
    · rw [hcalls', call, hcalls, List.append_assoc]
      rfl
    · rw [hevents', call, hevents, List.map_cons, List.filterMap_cons_some (Visit.control?_call hkind),
        List.append_assoc]
      rfl

theorem Clean.key {c : Node} {key : String} {o : Outline} (h : Clean c [(key, o)]) :
    c.bare = .group [] → '.' ∉ key.toList := fun hc => h.keys hc _ (List.mem_singleton.mpr rfl)

theorem reports_leaf {base c : Node} {t : Trail} {g : Growth} {key : String} {payload : Json}
    {spec : LeafSpec} (h : Focus base t.parent c g) (hkey : c.bare = .group [] → '.' ∉ key.toList)
    (hspec : LeafSpec.ofJson? payload = some spec) (l : Leaf) :
    Reports g [⟨t, some (Visit.slot key c.count?), key, .leaf, payload⟩]
      ((g.allocate key t.parent .leaf (.leaf l)).bind fun x =>
        .ok ((x.2.addSource x.1 spec).call (.control x.1 key spec.type))) := by
  refine reports_opened nofun h hkey fun g' _ => reports_ok ?_ ?_
  · simp only [call, addSource_eq, Visit.call, hspec]
    rfl
  · simp only [call, addSource_eq]

variable [Dialect]

theorem reports_growLeaf {base c : Node} {t : Trail} {g : Growth} {key : String} {payload : Json}
    (h : Focus base t.parent c g) (hkey : c.bare = .group [] → '.' ∉ key.toList) :
    Reports g [⟨t, some (Visit.slot key c.count?), key, .leaf, payload⟩]
      (g.growLeaf t.parent key payload) := by
  rcases growLeaf_cases g t.parent key payload with ⟨e, he, -⟩ | ⟨spec, l, messages, hspec, -, -, he⟩
  · rw [he]
    exact reports_error g _ e
  · have hf : Focus base t.parent c { g with messages := messages } := h.of_store rfl
    have hleaf := reports_leaf hf hkey hspec l
    rw [he]
    exact hleaf

theorem Grown.focus_of_eq {base c : Node} {p : ControlPath} {sources : List (ControlPath × OptionSource)}
    {os : List (String × Outline)} {r : Step} {g : Growth} (h : Grown base p c sources os r)
    (hr : r = .ok g) : Focus base p (c.planted os) g := by
  cases h with
  | ok _ focus _ =>
    cases hr
    exact focus
  | error => cases hr

/-- Wherever the outlines can be grown in a container with so many entries, the step reports the
visits. -/
def Tells (os : List (String × Outline)) (count : Option Nat) (visits : Trail → List Visit)
    (step : ControlPath → String → Growth → Step) : Prop :=
  ∀ ⦃base c : Node⦄ ⦃t : Trail⦄ ⦃g : Growth⦄, c.count? = count → Focus base t.parent c g →
    Clean c os → Reports g (visits t) (step t.parent t.classes g)

section Cases

variable {marker : Option String} {node : Json}

theorem tells_layout (kind : NodeKind.classify marker node = .layout)
    (below : ∀ content, (node.member? "content").bind Json.asObject? = some content → ∀ count,
      Tells (Outline.ofMembers content) count (fun t => Visit.ofMembers t count content)
        fun p classes => growMembers p classes content) (key : String) (count : Option Nat) :
    Tells (Outline.ofNode key marker node) count (fun t => Visit.ofNode t count key marker node)
      fun p classes => growNode p key marker classes node := by
  intro base c t g hcount h hclean
  simp only [Outline.ofNode_eq, Visit.ofNode_eq, growNode_eq, kind] at hclean ⊢
  cases hc : (node.member? "content").bind Json.asObject? with
  | none => exact reports_error g _ _
  | some content =>
    rw [hc] at hclean
    let layout := layoutOf (node.asObject?.getD [])
    have hf : Focus base (Trail.parent (.layout layout :: t)) c
        (g.call (.layout t.parent layout.classes)) := h.of_store (store_call _ _)
    exact (below content hc count hcount hf hclean).of_call rfl

theorem tells_group (kind : NodeKind.classify marker node = .group)
    (below : ∀ count, Tells (Outline.ofMembers (node.asObject?.getD [])) count
      (fun t => Visit.ofMembers t count (node.asObject?.getD []))
      fun p classes => growMembers p classes (node.asObject?.getD [])) (key : String)
    (count : Option Nat) :
    Tells (Outline.ofNode key marker node) count (fun t => Visit.ofNode t count key marker node)
      fun p classes => growNode p key marker classes node := by
  rintro base c t g rfl h hclean
  simp only [Outline.ofNode_eq, Visit.ofNode_eq, growNode_eq, kind] at hclean ⊢
  refine reports_opened nofun h hclean.key fun g' hf => ?_
  exact below none rfl (hf.of_store (store_call _ _)) hclean.of_group

theorem tells_array (kind : NodeKind.classify marker node = .array)
    (below : ∀ index count, Tells (entryOutlines index (node.asArray?.getD [])) (some count)
      (fun t => Visit.ofEntries t count index (node.asArray?.getD []))
      fun p classes => growEntries p index classes (node.asArray?.getD [])) (key : String)
    (count : Option Nat) :
    Tells (Outline.ofNode key marker node) count (fun t => Visit.ofNode t count key marker node)
      fun p classes => growNode p key marker classes node := by
  rintro base c t g rfl h hclean
  simp only [Outline.ofNode_eq, Visit.ofNode_eq, growNode_eq, kind] at hclean ⊢
  refine reports_opened nofun h hclean.key fun g' hf => ?_
  exact below 0 0 rfl (hf.of_store (store_call _ _)) hclean.of_array

theorem tells_leaf (kind : NodeKind.classify marker node = .leaf) (key : String)
    (count : Option Nat) :
    Tells (Outline.ofNode key marker node) count (fun t => Visit.ofNode t count key marker node)
      fun p classes => growNode p key marker classes node := by
  rintro base c t g rfl h hclean
  simp only [Outline.ofNode_eq, Visit.ofNode_eq, growNode_eq, kind] at hclean ⊢
  exact reports_growLeaf h hclean.key

theorem Tells.cons {os os' : List (String × Outline)} {count : Option Nat}
    {visits visits' : Trail → List Visit} {step rest : ControlPath → String → Growth → Step}
    (h : Tells os count visits step) (hgrows : ∀ classes, Grows os fun p => step p classes)
    (hrest : Tells os' (count.map (· + os.length)) visits' rest) :
    Tells (os ++ os') count (fun t => visits t ++ visits' t)
      fun p classes g => (step p classes g).bind (rest p classes) := by
  rintro base c t g rfl hf hclean
  obtain ⟨hfirst, hothers⟩ := hclean.of_append
  refine (h rfl hf hfirst).bind fun g' hg => ?_
  exact hrest (Node.count?_planted c os) ((hgrows t.classes hf hfirst).focus_of_eq hg) hothers

theorem tells : NodeKind.Cases
    (fun marker node => ∀ key count, Tells (Outline.ofNode key marker node) count
      (fun t => Visit.ofNode t count key marker node) fun p classes => growNode p key marker classes node)
    (fun members => ∀ count, Tells (Outline.ofMembers members) count
      (fun t => Visit.ofMembers t count members) fun p classes => growMembers p classes members)
    (fun entries => ∀ index count, Tells (entryOutlines index entries) (some count)
      (fun t => Visit.ofEntries t count index entries)
      fun p classes => growEntries p index classes entries) where
  layout := tells_layout
  group := tells_group
  array := tells_array
  leaf := tells_leaf
  noMembers _ _ _ _ _ _ _ _ := reports_ok rfl rfl
  members first others count := (first _ count).cons (grows.ofNode _ _ _) (others _)
  noEntries _ _ _ _ _ _ _ _ _ := reports_ok rfl rfl
  entries first others index count :=
    (first _ (some count)).cons (grows.ofNode _ _ _) (others (index + 1) _)

end Cases

theorem reports_ofSchema {members : List (String × Json)} (h : (Outline.ofSchema members).Dotless)
    (messages : Messages) :
    Reports (start messages) (Visit.ofSchema members) (ofSchema messages (.object members)) := by
  cases h with
  | group keys below =>
    have hf : Focus (.group []) (Trail.parent []) (.group []) (start messages) := focus_start messages
    exact tells.ofMembers members none rfl hf ⟨fun _ => keys, below⟩

end Growth

end Formwork
