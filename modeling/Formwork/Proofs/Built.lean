import Formwork.Proofs.Allocation
import Formwork.Proofs.Flattening
import Formwork.Proofs.Registrations
import Formwork.Proofs.Replacement

/-! The tree of a built form. Whatever the schema, additions alone have made it, so that its groups
ascend and its leaves are those of payloads. -/

namespace Formwork

open Store (reached)

variable [Dialect]

def Addition.Of (payloads : List Json) (x : Addition) : Prop :=
  ∀ l, x.node = .leaf l → ∃ payload ∈ payloads, Outline.leafOf? payload = some l

theorem Addition.Of.mono {payloads more : List Json} {x : Addition} (h : x.Of payloads)
    (hsub : payloads ⊆ more) : x.Of more := by
  intro l hl
  obtain ⟨payload, hmem, hpayload⟩ := h l hl
  exact ⟨payload, hsub hmem, hpayload⟩

namespace Growth

open Outline (memberPayloads entryPayloads payloadRegistrations)

/-- A step that succeeds has made additions to the store, and has registered the messages of the
payloads, and nothing else of either. -/
def Adds (g : Growth) (payloads : List Json) (step : Step) : Prop :=
  ∀ g', step = .ok g' →
    g'.messages = g.messages.putAll (payloads.flatMap payloadRegistrations) ∧
    ∃ xs : List Addition, g'.store = xs.foldl Store.after g.store ∧ ∀ x ∈ xs, x.Of payloads

theorem adds_ok {g g' : Growth} (hs : g'.store = g.store) (hm : g'.messages = g.messages) :
    Adds g [] (.ok g') := by
  rintro _ ⟨⟩
  exact ⟨hm, [], hs, nofun⟩

theorem adds_error (g : Growth) (payloads : List Json) (e : Failure) : Adds g payloads (.error e) :=
  nofun

theorem Adds.bind {g : Growth} {payloads more : List Json} {step : Step} {k : Growth → Step}
    (h : Adds g payloads step) (hk : ∀ g', Adds g' more (k g')) :
    Adds g (payloads ++ more) (step.bind k) := by
  intro g' hg
  obtain ⟨g₁, hg₁, hg⟩ := exists_ok_of_bind hg
  obtain ⟨hm₁, xs, hxs, hx⟩ := h g₁ hg₁
  obtain ⟨hm, ys, hys, hy⟩ := hk g₁ g' hg
  refine ⟨by rw [hm, hm₁, List.flatMap_append, Keyed.putAll_append], xs ++ ys, ?_, fun x hmem => ?_⟩
  · rw [hys, hxs, List.foldl_append]
  · obtain hmem | hmem := List.mem_append.mp hmem
    · exact (hx x hmem).mono (List.subset_append_left ..)
    · exact (hy x hmem).mono (List.subset_append_right ..)

omit [Dialect] in
theorem allocate_addition {g g' : Growth} {x : Addition} {kind : NodeKind} {path : ControlPath}
    (h : g.allocate x.key x.parent kind x.node = .ok (path, g')) :
    g'.messages = g.messages ∧ g'.store = g.store.after x := by
  obtain ⟨store, hadd, rfl⟩ := allocate_eq_ok h
  exact ⟨rfl, by rw [Store.after, Store.attempt, hadd]⟩

theorem adds_allocate {g : Growth} {payloads : List Json} (x : Addition) (hx : x.Of payloads)
    (kind : NodeKind) {k : ControlPath × Growth → Step} (hk : ∀ path g', Adds g' payloads (k (path, g'))) :
    Adds g payloads ((g.allocate x.key x.parent kind x.node).bind k) := by
  intro g' hg
  obtain ⟨⟨path, g₁⟩, ha, hg⟩ := exists_ok_of_bind hg
  obtain ⟨hm₁, hs₁⟩ := allocate_addition ha
  obtain ⟨hm, ys, hys, hy⟩ := hk path g₁ g' hg
  refine ⟨by rw [hm, hm₁], x :: ys, ?_, List.forall_mem_cons.mpr ⟨hx, hy⟩⟩
  rw [hys, List.foldl_cons, hs₁]

theorem adds_growLeaf (g : Growth) (p : ControlPath) (key : String) (payload : Json) :
    Adds g [payload] (g.growLeaf p key payload) := by
  rcases growLeaf_cases g p key payload with
    ⟨e, he, -⟩ | ⟨spec, l, messages, hspec, hl, hvalidators, he⟩
  · rw [he]
    exact adds_error g _ e
  · obtain ⟨hmessages, -⟩ := registered_validators hvalidators
    have hentries : [payload].flatMap payloadRegistrations = spec.rules.registrations := by
      simp [payloadRegistrations, hspec]
    have hx : (Addition.control key p l).Of [payload] := by
      rintro _ ⟨⟩
      exact ⟨payload, List.mem_cons_self, hl⟩
    intro g' hg
    rw [he] at hg
    obtain ⟨⟨path, g₁⟩, ha, hg⟩ := exists_ok_of_bind hg
    obtain ⟨hm₁, hs₁⟩ := allocate_addition (x := .control key p l) ha
    cases hg
    refine ⟨?_, [.control key p l], ?_, List.forall_mem_singleton.mpr hx⟩
    · rw [hentries, ← hmessages]
      rw [addSource_eq]
      exact hm₁
    · rw [store_call, addSource_eq]
      exact hs₁

section Cases

variable {marker : Option String} {node : Json}

theorem adds_layout (kind : NodeKind.classify marker node = .layout)
    (below : ∀ content, (node.member? "content").bind Json.asObject? = some content → ∀ p classes g,
      Adds g (memberPayloads (Outline.ofMembers content)) (growMembers p classes content g))
    (p : ControlPath) (key classes : String) (g : Growth) :
    Adds g (memberPayloads (Outline.ofNode key marker node))
      (growNode p key marker classes node g) := by
  simp only [Outline.ofNode_eq, growNode_eq, kind]
  cases hc : (node.member? "content").bind Json.asObject? with
  | none => exact adds_error _ _ _
  | some content => exact below content hc p _ (g.call _)

theorem adds_group (kind : NodeKind.classify marker node = .group)
    (below : ∀ p classes g, Adds g (memberPayloads (Outline.ofMembers (node.asObject?.getD [])))
      (growMembers p classes (node.asObject?.getD []) g))
    (p : ControlPath) (key classes : String) (g : Growth) :
    Adds g (memberPayloads (Outline.ofNode key marker node))
      (growNode p key marker classes node g) := by
  simp only [Outline.ofNode_eq, growNode_eq, kind]
  refine adds_allocate (.group key p) nofun .group fun path g' => ?_
  rw [memberPayloads, memberPayloads, List.append_nil]
  exact below path classes (g'.call (.group path key classes))

theorem adds_array (kind : NodeKind.classify marker node = .array)
    (below : ∀ p index classes g, Adds g (entryPayloads (Outline.ofEntries (node.asArray?.getD [])))
      (growEntries p index classes (node.asArray?.getD []) g))
    (p : ControlPath) (key classes : String) (g : Growth) :
    Adds g (memberPayloads (Outline.ofNode key marker node))
      (growNode p key marker classes node g) := by
  simp only [Outline.ofNode_eq, growNode_eq, kind]
  refine adds_allocate (.array key p) nofun .array fun path g' => ?_
  rw [memberPayloads, memberPayloads, List.append_nil]
  exact below path 0 classes (g'.call _)

theorem adds_leaf (kind : NodeKind.classify marker node = .leaf) (p : ControlPath)
    (key classes : String) (g : Growth) :
    Adds g (memberPayloads (Outline.ofNode key marker node))
      (growNode p key marker classes node g) := by
  simp only [Outline.ofNode_eq, growNode_eq, kind]
  exact adds_growLeaf g p key node

theorem adds_members {key : String} {rest : List (String × Json)}
    (first : ∀ p key classes g, Adds g (memberPayloads (Outline.ofNode key marker node))
      (growNode p key marker classes node g))
    (others : ∀ p classes g, Adds g (memberPayloads (Outline.ofMembers rest))
      (growMembers p classes rest g)) (p : ControlPath) (classes : String) (g : Growth) :
    Adds g (memberPayloads (Outline.ofNode key marker node ++ Outline.ofMembers rest))
      ((growNode p key marker classes node g).bind (growMembers p classes rest)) := by
  rw [Outline.memberPayloads_append]
  exact (first p key classes g).bind (others p classes)

theorem adds_entries {index : Nat} {rest : List Json}
    (first : ∀ p key classes g, Adds g (memberPayloads (Outline.ofNode key marker node))
      (growNode p key marker classes node g))
    (others : ∀ p index classes g, Adds g (entryPayloads (Outline.ofEntries rest))
      (growEntries p index classes rest g)) (p : ControlPath) (key classes : String) (g : Growth) :
    Adds g (entryPayloads ((Outline.ofNode "" marker node).map (·.2) ++ Outline.ofEntries rest))
      ((growNode p key marker classes node g).bind (growEntries p index classes rest)) := by
  have hnode := first p key classes g
  rw [Outline.memberPayloads_eq, map_snd_ofNode _ ""] at hnode
  rw [Outline.entryPayloads_append]
  exact hnode.bind (others p index classes)

theorem adds : NodeKind.Cases
    (fun marker node => ∀ p key classes g, Adds g (memberPayloads (Outline.ofNode key marker node))
      (growNode p key marker classes node g))
    (fun members => ∀ p classes g, Adds g (memberPayloads (Outline.ofMembers members))
      (growMembers p classes members g))
    (fun entries => ∀ p index classes g, Adds g (entryPayloads (Outline.ofEntries entries))
      (growEntries p index classes entries g)) where
  layout := adds_layout
  group := adds_group
  array := adds_array
  leaf := adds_leaf
  noMembers _ _ _ := adds_ok rfl rfl
  members := adds_members
  noEntries _ _ _ _ := adds_ok rfl rfl
  entries first others p _ classes := adds_entries first others p _ classes

end Cases

end Growth

/-- A built form has come about by additions of containers and of the leaves of payloads, with all
messages of the schema registered. -/
theorem Form.exists_additions {members : List (String × Json)} {messages : Messages} {f : Form}
    (h : build (.object members) messages = .ok f) :
    f.messages = messages.putAll (Outline.ofSchema members).registrations ∧
    ∃ xs : List Addition, f.store = reached xs ∧
      ∀ x ∈ xs, x.Of (Outline.ofSchema members).payloads := by
  rw [build] at h
  cases hg : Growth.ofSchema messages (.object members) with
  | error e =>
    rw [hg] at h
    cases h
  | ok g =>
    rw [hg] at h
    cases h
    exact Growth.adds.ofMembers members .root "" (.start messages) g hg

theorem Form.exists_object_of_build {schema : Json} {messages : Messages} {f : Form}
    (h : build schema messages = .ok f) : ∃ members, schema = .object members := by
  cases schema with
  | object members => exact ⟨members, rfl⟩
  | _ => cases h

/-- In a built form the groups ascend, and what holds of the leaves of all payloads holds of every
leaf. -/
theorem Form.arranged_build {schema : Json} {messages : Messages} {f : Form} {P : Leaf → Prop}
    (h : build schema messages = .ok f)
    (hP : ∀ payload l, Outline.leafOf? payload = some l → P l) :
    f.store.root.Arranged (fun _ => True) P := by
  obtain ⟨members, rfl⟩ := exists_object_of_build h
  obtain ⟨-, xs, hstore, hxs⟩ := exists_additions h
  rw [hstore]
  refine (Store.arranged_reached fun x hx l hl => ?_).mono fun _ _ => trivial
  obtain ⟨payload, -, hpayload⟩ := hxs x hx l hl
  exact hP payload l hpayload

/-- In a built form, every validator has a message. -/
theorem Form.registered_build {members : List (String × Json)} {messages : Messages} {f : Form}
    (h : build (.object members) messages = .ok f) :
    f.store.root.Arranged (fun _ => True) (Leaf.Registered (Outline.ofSchema members).registrations) := by
  obtain ⟨-, xs, hstore, hxs⟩ := exists_additions h
  rw [hstore]
  refine (Store.arranged_reached fun x hx l hl => ?_).mono fun _ _ => trivial
  obtain ⟨payload, hmem, hpayload⟩ := hxs x hx l hl
  have hsub : Outline.payloadRegistrations payload ⊆ (Outline.ofSchema members).registrations :=
    fun e he => List.mem_flatMap.mpr ⟨payload, hmem, he⟩
  obtain ⟨hlocals, hremotes⟩ := Outline.registered_of_leafOf? hpayload
  exact ⟨fun v hv => (hlocals v hv).mono hsub, fun v hv => (hremotes v hv).mono hsub⟩

theorem Outline.checked_of_leafOf? {payload : Json} {l : Leaf} (h : leafOf? payload = some l) :
    l.checked = l := by
  rw [leafOf?] at h
  split_ifs at h
  obtain ⟨spec, -, h⟩ := Option.bind_eq_some_iff.mp h
  obtain ⟨locals, -, h⟩ := Option.bind_eq_some_iff.mp h
  obtain ⟨remotes, -, h⟩ := Option.bind_eq_some_iff.mp h
  cases h
  rfl

end Formwork
