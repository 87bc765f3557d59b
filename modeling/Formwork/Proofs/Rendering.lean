import Formwork.Dialect.Common
import Formwork.Proofs.Visits

/-! The calls of the renderer, the allocations and the listing of the store tell of the same controls,
the listing in the order of keys. -/

namespace Formwork

open Node (Branch)

namespace Node

def kind : Node → NodeKind
  | group _ => .group
  | array _ => .array
  | leaf _ => .leaf

theorem walkMembers_perm {p : ControlPath} {m m' : List (String × Node)} (h : m.Perm m') :
    (walkMembers p m).Perm (walkMembers p m') := by
  induction h with
  | nil => exact .refl _
  | cons e _ ih => exact ih.append_left _
  | swap e e' m => exact List.perm_append_comm_assoc _ _ _
  | trans _ _ ih ih' => exact ih.trans ih'

end Node

namespace Outline

mutual
def written (p : ControlPath) : Outline → List (ControlPath × NodeKind)
  | gap => []
  | leaf _ => [(p, .leaf)]
  | group members => (p, .group) :: memberWritten p members
  | array entries => (p, .array) :: entryWritten p 0 entries
def memberWritten (p : ControlPath) : List (String × Outline) → List (ControlPath × NodeKind)
  | [] => []
  | (key, o) :: rest => written (p.childKey key) o ++ memberWritten p rest
def entryWritten (p : ControlPath) (index : Nat) : List Outline → List (ControlPath × NodeKind)
  | [] => []
  | o :: rest => written (p.childIndex index) o ++ entryWritten p (index + 1) rest
end

def slotWritten (p : ControlPath) (os : List (String × Outline)) :
    Option Nat → List (ControlPath × NodeKind)
  | none => memberWritten p os
  | some count => entryWritten p count (os.map (·.2))

theorem slotWritten_singleton (p : ControlPath) (count : Option Nat) (key : String) (o : Outline) :
    slotWritten p [(key, o)] count = o.written (p.child (Visit.slot key count)) := by
  cases count <;> exact List.append_nil _

theorem memberWritten_append (p : ControlPath) (os os' : List (String × Outline)) :
    memberWritten p (os ++ os') = memberWritten p os ++ memberWritten p os' := by
  induction os with
  | nil => rfl
  | cons m os ih => rw [List.cons_append, memberWritten, memberWritten, ih, List.append_assoc]

theorem entryWritten_append (p : ControlPath) (index : Nat) (os os' : List Outline) :
    entryWritten p index (os ++ os') =
      entryWritten p index os ++ entryWritten p (index + os.length) os' := by
  induction os generalizing index with
  | nil => rfl
  | cons o os ih =>
    rw [List.cons_append, entryWritten, entryWritten, ih, List.append_assoc, List.length_cons,
      Nat.add_assoc, Nat.add_comm 1]

theorem slotWritten_append (p : ControlPath) (count : Option Nat) (os os' : List (String × Outline)) :
    slotWritten p (os ++ os') count =
      slotWritten p os count ++ slotWritten p os' (count.map (· + os.length)) := by
  cases count with
  | none => exact memberWritten_append p os os'
  | some count =>
    show entryWritten p count ((os ++ os').map (·.2)) = _
    rw [List.map_append, entryWritten_append, List.length_map]
    rfl

variable [Dialect]

theorem memberWritten_perm {p : ControlPath} {os : List (String × Outline)}
    (h : ∀ m ∈ os, ∀ q, ((m.2.node.walk q).map fun e => (e.1, e.2.kind)).Perm (m.2.written q)) :
    ((Node.walkMembers p (memberNodes os)).map fun e => (e.1, e.2.kind)).Perm (memberWritten p os) := by
  induction os with
  | nil => exact .refl _
  | cons m os ih =>
    obtain ⟨hm, hos⟩ := List.forall_mem_cons.mp h
    rw [memberNodes, Node.walkMembers, List.map_append]
    exact (hm _).append (ih hos)

theorem entryWritten_perm {p : ControlPath} {os : List Outline} (index : Nat)
    (h : ∀ o ∈ os, ∀ q, ((o.node.walk q).map fun e => (e.1, e.2.kind)).Perm (o.written q)) :
    ((Node.walkItems p index (entryNodes os)).map fun e => (e.1, e.2.kind)).Perm
      (entryWritten p index os) := by
  induction os generalizing index with
  | nil => exact .refl _
  | cons o os ih =>
    obtain ⟨ho, hos⟩ := List.forall_mem_cons.mp h
    rw [entryNodes, Node.walkItems, List.map_append]
    exact (ho _).append (ih _ hos)

/-- The tree lists the controls of the outline, those of a group in the order of keys. -/
theorem Sound.walk_perm {o : Outline} (h : o.Sound) (p : ControlPath) :
    ((o.node.walk p).map fun e => (e.1, e.2.kind)).Perm (o.written p) := by
  induction h generalizing p with
  | leaf reads =>
    rw [node, reads]
    exact .refl _
  | @group members _ distinct _ ih =>
    have hnodup : (Keyed.keys (memberNodes members)).Nodup := by rwa [keys_memberNodes]
    have hsorted := (Node.walkMembers_perm (p := p) (Keyed.sorted_perm hnodup)).map
      fun e => (e.1, e.2.kind)
    exact (hsorted.trans (memberWritten_perm fun m hm q => ih m hm q)).cons _
  | array _ ih => exact (entryWritten_perm 0 fun o ho q => ih o ho q).cons _

theorem mem_memberNodes {os : List (String × Outline)} {e : String × Node} (h : e ∈ memberNodes os) :
    ∃ m ∈ os, e = (m.1, m.2.node) := by
  induction os with
  | nil => cases h
  | cons m os ih =>
    rcases List.mem_cons.mp h with he | h
    · exact ⟨m, List.mem_cons_self, he⟩
    · obtain ⟨m', hm', he⟩ := ih h
      exact ⟨m', List.mem_cons_of_mem _ hm', he⟩

theorem mem_entryNodes {os : List Outline} {n : Node} (h : n ∈ entryNodes os) :
    ∃ o ∈ os, n = o.node := by
  induction os with
  | nil => cases h
  | cons o os ih =>
    rcases List.mem_cons.mp h with he | h
    · exact ⟨o, List.mem_cons_self, he⟩
    · obtain ⟨o', ho', he⟩ := ih h
      exact ⟨o', List.mem_cons_of_mem _ ho', he⟩

theorem Sound.wellKeyed {o : Outline} (h : o.Sound) (hd : o.Dotless) : o.node.WellKeyed := by
  induction h with
  | leaf reads =>
    rw [node, reads]
    exact .leaf trivial
  | @group members named distinct _ ih =>
    obtain ⟨hkeys, hbelow⟩ := dotless_group_iff.mp hd
    have hnodup : (Keyed.keys (memberNodes members)).Nodup := by rwa [keys_memberNodes]
    have hmem : ∀ e ∈ Keyed.sorted (memberNodes members), ∃ m ∈ members, e = (m.1, m.2.node) :=
      fun e he => mem_memberNodes ((Keyed.sorted_perm hnodup).mem_iff.mp he)
    refine .group (Keyed.sorted_ascending _) (fun e he => ?_) (fun e he => ?_)
    · obtain ⟨m, hm, rfl⟩ := hmem e he
      exact ⟨named m hm, hkeys _ (List.mem_map_of_mem hm)⟩
    · obtain ⟨m, hm, rfl⟩ := hmem e he
      exact ih m hm (hbelow m hm)
  | array _ ih =>
    have hbelow := dotless_array_iff.mp hd
    refine .array fun n hn => ?_
    obtain ⟨o, ho, rfl⟩ := mem_entryNodes hn
    exact ih o ho (hbelow o ho)

end Outline

namespace Visit

open Outline (slotWritten)

def controls (vs : List Visit) : List (ControlPath × NodeKind) :=
  (vs.map call).filterMap RenderCall.control?

theorem controls_append (vs vs' : List Visit) : controls (vs ++ vs') = controls vs ++ controls vs' := by
  rw [controls, List.map_append, List.filterMap_append, controls, controls]

section Cases

variable {marker : Option String} {node : Json}

theorem controls_layout (kind : NodeKind.classify marker node = .layout)
    (below : ∀ content, (node.member? "content").bind Json.asObject? = some content → ∀ t count,
      controls (ofMembers t count content) = slotWritten t.parent (Outline.ofMembers content) count)
    (t : Trail) (count : Option Nat) (key : String) :
    controls (ofNode t count key marker node) =
      slotWritten t.parent (Outline.ofNode key marker node) count := by
  simp only [ofNode_eq, Outline.ofNode_eq, kind]
  cases hc : (node.member? "content").bind Json.asObject? with
  | none => cases count <;> rfl
  | some content => exact below content hc (.layout _ :: t) count

theorem controls_group (kind : NodeKind.classify marker node = .group)
    (below : ∀ t count, controls (ofMembers t count (node.asObject?.getD [])) =
      slotWritten t.parent (Outline.ofMembers (node.asObject?.getD [])) count)
    (t : Trail) (count : Option Nat) (key : String) :
    controls (ofNode t count key marker node) =
      slotWritten t.parent (Outline.ofNode key marker node) count := by
  simp only [ofNode_eq, Outline.ofNode_eq, kind]
  rw [Outline.slotWritten_singleton]
  exact congrArg _ (below (.control _ :: t) none)

theorem controls_array (kind : NodeKind.classify marker node = .array)
    (below : ∀ t count index, controls (ofEntries t count index (node.asArray?.getD [])) =
      Outline.entryWritten t.parent count (Outline.ofEntries (node.asArray?.getD [])))
    (t : Trail) (count : Option Nat) (key : String) :
    controls (ofNode t count key marker node) =
      slotWritten t.parent (Outline.ofNode key marker node) count := by
  simp only [ofNode_eq, Outline.ofNode_eq, kind]
  rw [Outline.slotWritten_singleton]
  exact congrArg _ (below (.control _ :: t) 0 0)

theorem controls_leaf (kind : NodeKind.classify marker node = .leaf) (t : Trail)
    (count : Option Nat) (key : String) :
    controls (ofNode t count key marker node) =
      slotWritten t.parent (Outline.ofNode key marker node) count := by
  simp only [ofNode_eq, Outline.ofNode_eq, kind]
  rw [Outline.slotWritten_singleton]
  rfl

theorem controls_members {key : String} {rest : List (String × Json)}
    (first : ∀ t count key, controls (ofNode t count key marker node) =
      slotWritten t.parent (Outline.ofNode key marker node) count)
    (others : ∀ t count, controls (ofMembers t count rest) =
      slotWritten t.parent (Outline.ofMembers rest) count) (t : Trail) (count : Option Nat) :
    controls (ofNode t count key marker node ++
        ofMembers t (count.map (· + (Outline.ofNode key marker node).length)) rest) =
      slotWritten t.parent (Outline.ofNode key marker node ++ Outline.ofMembers rest) count := by
  rw [controls_append, Outline.slotWritten_append, first, others]

theorem controls_entries {key : String} {rest : List Json}
    (first : ∀ t count key, controls (ofNode t count key marker node) =
      slotWritten t.parent (Outline.ofNode key marker node) count)
    (others : ∀ t count index, controls (ofEntries t count index rest) =
      Outline.entryWritten t.parent count (Outline.ofEntries rest)) (t : Trail) (count index : Nat) :
    controls (ofNode t (some count) key marker node ++
        ofEntries t (count + (Outline.ofNode key marker node).length) index rest) =
      Outline.entryWritten t.parent count
        ((Outline.ofNode "" marker node).map (·.2) ++ Outline.ofEntries rest) := by
  rw [controls_append, Outline.entryWritten_append, first, others, Growth.map_snd_ofNode "" key]
  rw [slotWritten, List.length_map]

theorem controls_walk : NodeKind.Cases
    (fun marker node => ∀ t count key, controls (ofNode t count key marker node) =
      slotWritten t.parent (Outline.ofNode key marker node) count)
    (fun members => ∀ t count, controls (ofMembers t count members) =
      slotWritten t.parent (Outline.ofMembers members) count)
    (fun entries => ∀ t count index, controls (ofEntries t count index entries) =
      Outline.entryWritten t.parent count (Outline.ofEntries entries)) where
  layout := controls_layout
  group := controls_group
  array := controls_array
  leaf := controls_leaf
  noMembers _ count := by cases count <;> rfl
  members := controls_members
  noEntries _ _ _ := rfl
  entries first others t count _ := controls_entries first others t count _

end Cases

end Visit

namespace Store

theorem WellKeyed.resolve_of_mem_nodes {s : Store} (h : s.WellKeyed) {p : ControlPath} {n : Node}
    (hn : (p, n) ∈ s.nodes) : s.resolve p = some n := by
  rw [nodes, Node.walk_eq] at hn
  obtain ⟨⟨a, m⟩, hm, he⟩ := List.mem_map.mp hn
  cases he
  have hat := h.root.mem_listing.mp hm
  exact (resolve_eq_at? (h.address?_ofAddress hat)).trans hat

end Store

/-- What was reported on the way is one call for each node of the schema, and what is in the store. -/
structure Growth.Recorded (members : List (String × Json)) (g : Growth) : Prop where
  calls : g.calls = (Visit.ofSchema members).map Visit.call
  events : g.events = (g.calls.filterMap RenderCall.control?).map fun c => .nodeAllocated c.1 c.2
  listed : (.root :: (g.calls.filterMap RenderCall.control?).map (·.1)).Perm g.store.paths
  kept : ∀ c ∈ g.calls.filterMap RenderCall.control?,
    ∃ n, g.store.resolve c.1 = some n ∧ n.kind = c.2

namespace Form

/-- A form is built in one walk over the schema, and where no key of a mapping has a dot, what the walk
reported on its way is right about the store that it leaves. -/
theorem build_recorded [Dialect] {schema : Json} {messages : Messages} {f : Form}
    (h : build schema messages = .ok f)
    (hd : ∀ members, schema = .object members → (Outline.ofSchema members).Dotless) :
    ∃ members g, schema = .object members ∧ Growth.ofSchema messages schema = .ok g ∧ f = ofGrowth g ∧
      g.Recorded members := by
  cases schema with
  | object members =>
    have hdotless := hd members rfl
    rw [build] at h
    rcases Growth.ofSchema_cases hdotless messages with ⟨g, hg, hsound, hroot⟩ | ⟨e, he, -⟩
    · rw [hg] at h
      cases h
      obtain ⟨hcalls, hevents⟩ := Growth.reports_ofSchema hdotless messages g hg
      have hcontrols : g.calls.filterMap RenderCall.control? =
          Outline.memberWritten .root (Outline.ofMembers members) := by
        rw [hcalls]
        exact Visit.controls_walk.ofMembers members [] none
      have hperm : (g.store.nodes.map fun e => (e.1, e.2.kind)).Perm
          ((.root, .group) :: g.calls.filterMap RenderCall.control?) := by
        rw [hcontrols, Store.nodes, hroot]
        exact hsound.walk_perm .root
      have hkeyed : g.store.WellKeyed := by
        refine ⟨?_, ?_⟩
        · rw [hroot]
          exact hsound.wellKeyed hdotless
        · rw [hroot]
          rfl
      refine ⟨members, g, rfl, hg, rfl, hcalls, ?_, ?_, ?_⟩
      · rw [hevents, hcalls]
        rfl
      · have hpaths := (hperm.map (·.1)).symm
        rwa [List.map_map] at hpaths
      · intro c hc
        obtain ⟨⟨p, n⟩, hn, rfl⟩ := List.mem_map.mp (hperm.mem_iff.mpr (List.mem_cons_of_mem _ hc))
        exact ⟨n, hkeyed.resolve_of_mem_nodes hn, rfl⟩
    · rw [he] at h
      cases h
  | _ => cases h

def framedRows : List (String × Json) :=
  let frame := Json.object [("direction", .string "flex-row")]
  let entry := Json.object [("key", .string "F-layout"), ("content", .object [("start", .null)])]
  let content := Json.object [("rows", .array [entry, .null]), ("area", .null)]
  [("title", .null), ("F-layout", .object [("config", frame), ("content", content)])]

theorem framedRows_recorded :
    (∀ members, Json.object framedRows = .object members → (Outline.ofSchema members).Dotless) ∧
      ∃ f g, build (.object framedRows) [] = .ok f ∧ f = ofGrowth g ∧ g.Recorded framedRows ∧
        g.calls = [.group ⟨"title"⟩ "title" "", .layout .root "flex flex-row",
          .array ⟨"rows"⟩ "rows" 2 "flex flex-row", .layout ⟨"rows"⟩ "flex",
          .group ⟨"rows.0"⟩ "start" "flex", .group ⟨"rows.1"⟩ "1" "flex flex-row",
          .group ⟨"area"⟩ "area" "flex flex-row"] := by
  have hempty : (Outline.group []).Dotless := .group nofun nofun
  have hdotless : (Outline.ofSchema framedRows).Dotless := by
    refine .group (by decide) (List.forall_mem_cons.mpr ⟨hempty, List.forall_mem_cons.mpr ⟨?_, ?_⟩⟩)
    · exact .array (List.forall_mem_cons.mpr ⟨hempty, List.forall_mem_singleton.mpr hempty⟩)
    · exact List.forall_mem_singleton.mpr hempty
  have hd : ∀ members, Json.object framedRows = .object members →
      (Outline.ofSchema members).Dotless := by
    rintro _ ⟨⟩
    exact hdotless
  have hf : build (.object framedRows) [] = .ok _ := rfl
  obtain ⟨members, g, hschema, -, hg, hrecorded⟩ := build_recorded hf hd
  cases hschema
  refine ⟨hd, _, g, hf, hg, hrecorded, ?_⟩
  rw [hrecorded.calls]
  decide

end Form

end Formwork
