import Formwork.Form

/-! The walk over a schema, in which what is done with a node depends on its kind alone. -/

namespace Formwork

namespace NodeKind

/-- The cases of an induction over the nodes of a schema with their markers, the members of objects and
the entries of arrays. -/
structure Cases (N : Option String → Json → Prop) (M : List (String × Json) → Prop)
    (E : List Json → Prop) : Prop where
  layout {marker : Option String} {node : Json} (kind : classify marker node = .layout)
    (below : ∀ content, (node.member? "content").bind Json.asObject? = some content → M content) :
    N marker node
  group {marker : Option String} {node : Json} (kind : classify marker node = .group)
    (below : M (node.asObject?.getD [])) : N marker node
  array {marker : Option String} {node : Json} (kind : classify marker node = .array)
    (below : E (node.asArray?.getD [])) : N marker node
  leaf {marker : Option String} {node : Json} (kind : classify marker node = .leaf) : N marker node
  noMembers : M []
  members {key : String} {node : Json} {rest : List (String × Json)} (first : N (some key) node)
    (others : M rest) : M ((key, node) :: rest)
  noEntries : E []
  entries {entry : Json} {rest : List Json} (first : N (entryKey? entry) entry) (others : E rest) :
    E (entry :: rest)

namespace Cases

variable {N : Option String → Json → Prop} {M : List (String × Json) → Prop} {E : List Json → Prop}

theorem of_below (h : Cases N M E) (marker : Option String) {node : Json}
    (hcontent : ∀ content, (node.member? "content").bind Json.asObject? = some content → M content)
    (hmembers : M (node.asObject?.getD [])) (hentries : E (node.asArray?.getD [])) :
    N marker node := by
  cases hkind : classify marker node with
  | layout => exact h.layout hkind hcontent
  | group => exact h.group hkind hmembers
  | array => exact h.array hkind hentries
  | leaf => exact h.leaf hkind

mutual
theorem ofNode (h : Cases N M E) (marker : Option String) (node : Json) : N marker node := by
  cases node with
  | object members =>
    exact h.of_below marker (ofContent h members) (ofMembers h members) h.noEntries
  | array entries => exact h.of_below marker nofun h.noMembers (ofEntries h entries)
  | _ => exact h.of_below marker nofun h.noMembers h.noEntries
theorem ofContent (h : Cases N M E) (members content : List (String × Json))
    (hc : (Keyed.get? "content" members).bind Json.asObject? = some content) : M content := by
  cases members with
  | nil => cases hc
  | cons m rest =>
    obtain ⟨field, node⟩ := m
    rw [Keyed.get?_cons] at hc
    by_cases hf : field = "content"
    · rw [if_pos hf] at hc
      cases node with
      | object inner =>
        rw [← Option.some.inj hc]
        exact ofMembers h inner
      | _ => cases hc
    · rw [if_neg hf] at hc
      exact ofContent h rest content hc
theorem ofMembers (h : Cases N M E) (members : List (String × Json)) : M members := by
  cases members with
  | nil => exact h.noMembers
  | cons m rest =>
    obtain ⟨key, node⟩ := m
    exact h.members (ofNode h (some key) node) (ofMembers h rest)
theorem ofEntries (h : Cases N M E) (entries : List Json) : E entries := by
  cases entries with
  | nil => exact h.noEntries
  | cons entry rest => exact h.entries (ofNode h (entryKey? entry) entry) (ofEntries h rest)
end

end Cases

end NodeKind

namespace Growth

variable [Dialect]

theorem growLayout_eq (p : ControlPath) (layout : Layout) (members : List (String × Json))
    (g : Growth) :
    growLayout p layout members g =
      match (Keyed.get? "content" members).bind Json.asObject? with
      | some content => growMembers p layout.classes content (g.call (.layout p layout.classes))
      | none => g.fail (.schema (.layoutContent p)) := by
  induction members with
  | nil => rfl
  | cons m members ih =>
    obtain ⟨field, content⟩ := m
    rw [growLayout, Keyed.get?_cons]
    by_cases hf : field = "content"
    · rw [if_pos hf, if_pos hf]
      cases content <;> rfl
    · rw [if_neg hf, if_neg hf, ih]

theorem growNode_eq (p : ControlPath) (key : String) (marker : Option String) (classes : String)
    (node : Json) (g : Growth) :
    growNode p key marker classes node g =
      match NodeKind.classify marker node with
      | .layout =>
        match (node.member? "content").bind Json.asObject? with
        | some content =>
          let classes := (layoutOf (node.asObject?.getD [])).classes
          growMembers p classes content (g.call (.layout p classes))
        | none => g.fail (.schema (.layoutContent p))
      | .group => (g.allocate key p .group (.group [])).bind fun x =>
        growMembers x.1 classes (node.asObject?.getD []) (x.2.call (.group x.1 key classes))
      | .array => (g.allocate key p .array (.array [])).bind fun x =>
        growEntries x.1 0 classes (node.asArray?.getD [])
          (x.2.call (.array x.1 key (node.asArray?.getD []).length classes))
      | .leaf => g.growLeaf p key node := by
  by_cases hm : marker = some NodeKind.layoutMarker
  · cases node <;>
      simp [growNode, NodeKind.classify, hm, Json.member?, Json.asObject?, growLayout_eq]
  · cases node with
    | object members =>
      cases hc : members.all fun m => m.2.isContainer || m.2.isNull <;>
        simp [growNode, NodeKind.classify, hm, hc, Json.asObject?, bind]
    | _ => simp [growNode, growMembers, NodeKind.classify, hm, Json.asArray?, Json.asObject?, bind]

end Growth

end Formwork
