import Formwork.Dialect.Common
import Formwork.Proofs.Flattening

/-! Schemas that differ in the order of members only. In a group the order in which members were written
is lost, so that such schemas can be built alike and have the same store. -/

namespace Formwork

mutual
/-- Two nodes with the same marker differ only in the written order of members. `grouped` tells whether
the control that encloses the nodes is a group. -/
inductive Reordered : (grouped : Bool) → (marker : Option String) → Json → Json → Prop
  | same (grouped : Bool) (marker : Option String) (node : Json) : Reordered grouped marker node node
  | trans {grouped : Bool} {marker : Option String} {node node' node'' : Json}
      (h : Reordered grouped marker node node') (h' : Reordered grouped marker node' node'') :
      Reordered grouped marker node node''
  | fields (grouped : Bool) (marker : Option String) {members members' : List (String × Json)}
      (distinct : (Keyed.keys members).Nodup) (perm : members.Perm members') :
      Reordered grouped marker (.object members) (.object members')
  | group {grouped : Bool} {marker : Option String} {members members' : List (String × Json)}
      (kind : NodeKind.classify marker (.object members) = .group)
      (below : MembersReordered true members members') :
      Reordered grouped marker (.object members) (.object members')
  | array {grouped : Bool} {marker : Option String} {entries entries' : List Json}
      (kind : NodeKind.classify marker (.array entries) = .array)
      (below : EntriesReordered entries entries') :
      Reordered grouped marker (.array entries) (.array entries')
  /-- The content of a layout is enclosed by the control that encloses the layout. -/
  | layout {grouped : Bool} {before later content content' : List (String × Json)}
      (first : ∀ m ∈ before, m.1 ≠ "content") (below : MembersReordered grouped content content') :
      Reordered grouped (some NodeKind.layoutMarker)
        (.object (before ++ ("content", .object content) :: later))
        (.object (before ++ ("content", .object content') :: later))
/-- The members that a container takes one after another, in a group in any order. -/
inductive MembersReordered : (grouped : Bool) → List (String × Json) → List (String × Json) → Prop
  | nil (grouped : Bool) : MembersReordered grouped [] []
  | cons {grouped : Bool} {key : String} {node node' : Json} {members members' : List (String × Json)}
      (head : Reordered grouped (some key) node node')
      (tail : MembersReordered grouped members members') :
      MembersReordered grouped ((key, node) :: members) ((key, node') :: members')
  | swap (m m' : String × Json) (members : List (String × Json)) :
      MembersReordered true (m :: m' :: members) (m' :: m :: members)
  | trans {grouped : Bool} {members members' members'' : List (String × Json)}
      (h : MembersReordered grouped members members')
      (h' : MembersReordered grouped members' members'') : MembersReordered grouped members members''
inductive EntriesReordered : List Json → List Json → Prop
  | nil : EntriesReordered [] []
  | cons {entry entry' : Json} {entries entries' : List Json}
      (head : Reordered false (NodeKind.entryKey? entry) entry entry')
      (tail : EntriesReordered entries entries') :
      EntriesReordered (entry :: entries) (entry' :: entries')
end

namespace Outline

variable [Dialect]

structure Alike (o o' : Outline) : Prop where
  sound : o.Sound ↔ o'.Sound
  dotless : o.Dotless ↔ o'.Dotless
  node : o.Sound → o.node = o'.node

theorem Alike.refl (o : Outline) : o.Alike o := ⟨.rfl, .rfl, fun _ => rfl⟩

theorem Alike.trans {o o' o'' : Outline} (h : o.Alike o') (h' : o'.Alike o'') : o.Alike o'' :=
  ⟨h.sound.trans h'.sound, h.dotless.trans h'.dotless,
    fun hs => (h.node hs).trans (h'.node (h.sound.mp hs))⟩

inductive AllAlike : (grouped : Bool) → List (String × Outline) → List (String × Outline) → Prop
  | nil (grouped : Bool) : AllAlike grouped [] []
  | cons {grouped : Bool} {key : String} {o o' : Outline} {os os' : List (String × Outline)}
      (head : o.Alike o') (tail : AllAlike grouped os os') :
      AllAlike grouped ((key, o) :: os) ((key, o') :: os')
  | swap (m m' : String × Outline) (os : List (String × Outline)) :
      AllAlike true (m :: m' :: os) (m' :: m :: os)
  | trans {grouped : Bool} {os os' os'' : List (String × Outline)} (h : AllAlike grouped os os')
      (h' : AllAlike grouped os' os'') : AllAlike grouped os os''

section AllAlike

variable {grouped : Bool} {os os' ps ps' : List (String × Outline)}

theorem AllAlike.refl (grouped : Bool) (os : List (String × Outline)) : AllAlike grouped os os := by
  induction os with
  | nil => exact .nil grouped
  | cons m os ih => exact .cons (.refl m.2) ih

theorem AllAlike.of_perm (h : os.Perm os') : AllAlike true os os' := by
  induction h with
  | nil => exact .nil true
  | cons m _ ih => exact .cons (.refl m.2) ih
  | swap m m' os => exact .swap m' m os
  | trans _ _ ih ih' => exact ih.trans ih'

theorem AllAlike.append_left (h : AllAlike grouped ps ps') (os : List (String × Outline)) :
    AllAlike grouped (os ++ ps) (os ++ ps') := by
  induction os with
  | nil => exact h
  | cons m os ih => exact .cons (.refl m.2) ih

theorem AllAlike.append_right (h : AllAlike grouped os os') (ps : List (String × Outline)) :
    AllAlike grouped (os ++ ps) (os' ++ ps) := by
  induction h with
  | nil => exact .refl _ ps
  | cons head _ ih => exact .cons head ih
  | swap m m' os => exact .swap m m' (os ++ ps)
  | trans _ _ ih ih' => exact ih.trans ih'

theorem AllAlike.append (h : AllAlike grouped os os') (hp : AllAlike grouped ps ps') :
    AllAlike grouped (os ++ ps) (os' ++ ps') :=
  (h.append_right ps).trans (hp.append_left os')

theorem Alike.array_cons {o o' : Outline} {es es' : List Outline} (h : o.Alike o')
    (hes : (array es).Alike (array es')) : (array (o :: es)).Alike (array (o' :: es')) := by
  obtain ⟨hsound, hdotless, hnode⟩ := hes
  rw [sound_array_iff, sound_array_iff] at hsound
  rw [dotless_array_iff, dotless_array_iff] at hdotless
  refine ⟨?_, ?_, fun hs => ?_⟩
  · rw [sound_array_iff, sound_array_iff, List.forall_mem_cons, List.forall_mem_cons]
    exact and_congr h.sound hsound
  · rw [dotless_array_iff, dotless_array_iff, List.forall_mem_cons, List.forall_mem_cons]
    exact and_congr h.dotless hdotless
  · obtain ⟨ho, hrest⟩ := List.forall_mem_cons.mp (sound_array_iff.mp hs)
    have hnodes : entryNodes es = entryNodes es' := Node.array.inj (hnode (.array hrest))
    show Node.array (o.node :: entryNodes es) = Node.array (o'.node :: entryNodes es')
    rw [h.node ho, hnodes]

theorem AllAlike.array (h : AllAlike false os os') {es es' : List Outline}
    (hes : (array es).Alike (array es')) :
    (array (os.map (·.2) ++ es)).Alike (array (os'.map (·.2) ++ es')) := by
  generalize hgrouped : false = grouped at h
  induction h generalizing es with
  | nil => exact hes
  | cons head _ ih => exact head.array_cons (ih hes hgrouped)
  | swap => cases hgrouped
  | trans _ _ ih ih' => exact (ih hes hgrouped).trans (ih' (.refl _) hgrouped)

structure Equated (os os' : List (String × Outline)) : Prop where
  keys : (Keyed.keys os).Perm (Keyed.keys os')
  sound : (∀ m ∈ os, m.2.Sound) ↔ ∀ m ∈ os', m.2.Sound
  dotless : (∀ m ∈ os, m.2.Dotless) ↔ ∀ m ∈ os', m.2.Dotless
  nodes : (∀ m ∈ os, m.2.Sound) → (memberNodes os).Perm (memberNodes os')

theorem AllAlike.equated (h : AllAlike grouped os os') : Equated os os' := by
  induction h with
  | nil => exact ⟨.refl _, .rfl, .rfl, fun _ => .refl _⟩
  | @cons _ key o o' os os' head _ ih =>
    refine ⟨ih.keys.cons key, ?_, ?_, fun hs => ?_⟩
    · rw [List.forall_mem_cons, List.forall_mem_cons]
      exact and_congr head.sound ih.sound
    · rw [List.forall_mem_cons, List.forall_mem_cons]
      exact and_congr head.dotless ih.dotless
    · obtain ⟨ho, hos⟩ := List.forall_mem_cons.mp hs
      rw [memberNodes, memberNodes, head.node ho]
      exact (ih.nodes hos).cons _
  | swap m m' os =>
    refine ⟨.swap _ _ _, ?_, ?_, fun _ => .swap _ _ _⟩
    · simp only [List.forall_mem_cons]
      exact and_left_comm
    · simp only [List.forall_mem_cons]
      exact and_left_comm
  | trans _ _ ih ih' =>
    exact ⟨ih.keys.trans ih'.keys, ih.sound.trans ih'.sound, ih.dotless.trans ih'.dotless,
      fun hs => (ih.nodes hs).trans (ih'.nodes (ih.sound.mp hs))⟩

theorem AllAlike.group (h : AllAlike true os os') : (group os).Alike (group os') := by
  obtain ⟨hkeys, hsound, hdotless, hnodes⟩ := h.equated
  have hmem : ∀ k, k ∈ Keyed.keys os ↔ k ∈ Keyed.keys os' := fun k => hkeys.mem_iff
  refine ⟨?_, ?_, fun hs => ?_⟩
  · rw [sound_group_iff, sound_group_iff, hkeys.nodup_iff, hsound]
    simp only [hmem]
  · rw [dotless_group_iff, dotless_group_iff, hdotless]
    simp only [hmem]
  · obtain ⟨-, hdistinct, hbelow⟩ := sound_group_iff.mp hs
    have hnodup : (Keyed.keys (memberNodes os)).Nodup := by rwa [keys_memberNodes]
    exact congrArg Node.group (Keyed.sorted_eq_of_perm (hnodes hbelow) hnodup)

end AllAlike

end Outline

theorem Reordered.shape {grouped : Bool} {marker : Option String} {node node' : Json}
    (h : Reordered grouped marker node node') :
    (node'.isContainer || node'.isNull) = (node.isContainer || node.isNull) := by
  match h with
  | .same _ _ _ | .fields .. | .group .. | .array .. | .layout .. => rfl
  | .trans h h' => exact h'.shape.trans h.shape

theorem MembersReordered.all_shape {grouped : Bool} {members members' : List (String × Json)}
    (h : MembersReordered grouped members members') :
    (members'.all fun m => m.2.isContainer || m.2.isNull) =
      members.all fun m => m.2.isContainer || m.2.isNull := by
  match h with
  | .nil _ => rfl
  | .cons head tail => rw [List.all_cons, List.all_cons, head.shape, tail.all_shape]
  | .swap m m' members => simp only [List.all_cons, Bool.and_left_comm]
  | .trans first second => exact second.all_shape.trans first.all_shape

theorem MembersReordered.classify {grouped : Bool} {members members' : List (String × Json)}
    (h : MembersReordered grouped members members') (marker : Option String) :
    NodeKind.classify marker (.object members') = NodeKind.classify marker (.object members) := by
  simp only [NodeKind.classify, h.all_shape]

namespace NodeKind

theorem classify_of_perm {members members' : List (String × Json)} (h : members.Perm members')
    (marker : Option String) : classify marker (.object members) = classify marker (.object members') := by
  simp only [classify, h.all_eq]

theorem entryKey?_of_group {marker : Option String} {members : List (String × Json)}
    (h : classify marker (.object members) = .group) : entryKey? (.object members) = none := by
  have hall : (members.all fun m => m.2.isContainer || m.2.isNull) = true := by
    by_contra hall
    simp only [classify, if_neg hall] at h
    split at h <;> cases h
  simp only [entryKey?, Json.member?]
  cases hget : Keyed.get? "key" members with
  | none => rfl
  | some text =>
    have htext := List.all_eq_true.mp hall _ (Keyed.mem_of_get? hget)
    cases text with
    | string => cases htext
    | _ => rfl

theorem entryKey?_of_perm {members members' : List (String × Json)} (hperm : members.Perm members')
    (h : (Keyed.keys members).Nodup) : entryKey? (.object members) = entryKey? (.object members') := by
  rw [entryKey?, entryKey?, Json.member?, Json.member?, Keyed.get?_of_perm hperm h]

theorem entryKey?_content (before later : List (String × Json)) (content content' : Json) :
    entryKey? (.object (before ++ ("content", content') :: later)) =
      entryKey? (.object (before ++ ("content", content) :: later)) := by
  rw [entryKey?, entryKey?, Json.member?, Json.member?, Keyed.get?_append, Keyed.get?_append]
  rfl

end NodeKind

theorem Reordered.entryKey? {grouped : Bool} {marker : Option String} {node node' : Json}
    (h : Reordered grouped marker node node') : NodeKind.entryKey? node' = NodeKind.entryKey? node := by
  match h with
  | .same _ _ _ | .array _ _ => rfl
  | .trans h h' => exact h'.entryKey?.trans h.entryKey?
  | .fields _ _ distinct perm => exact (NodeKind.entryKey?_of_perm perm distinct).symm
  | .group kind below =>
    exact (NodeKind.entryKey?_of_group ((below.classify _).trans kind)).trans
      (NodeKind.entryKey?_of_group kind).symm
  | .layout _ _ => exact NodeKind.entryKey?_content _ _ _ _

theorem LeafSpec.ofJson?_of_perm {members members' : List (String × Json)}
    (hperm : members.Perm members') (h : (Keyed.keys members).Nodup) :
    ofJson? (.object members) = ofJson? (.object members') := by
  simp only [ofJson?, Json.record?, Json.optional, Keyed.defaulted, Option.bind_eq_bind,
    Option.bind_some, Keyed.get?_of_perm hperm h]

namespace Outline

variable [Dialect]

theorem leafOf?_of_perm {members members' : List (String × Json)} (hperm : members.Perm members')
    (h : (Keyed.keys members).Nodup) : leafOf? (.object members) = leafOf? (.object members') := by
  rw [leafOf?, leafOf?, LeafSpec.ofJson?_of_perm hperm h]
  rfl

theorem alike_leaf {payload payload' : Json} (h : leafOf? payload = leafOf? payload') :
    (leaf payload).Alike (leaf payload') := by
  have hsound : ∀ {p}, (leaf p).Sound ↔ ∃ l, leafOf? p = some l := by
    refine ⟨fun hp => ?_, fun ⟨_, reads⟩ => .leaf reads⟩
    cases hp with
    | leaf reads => exact ⟨_, reads⟩
  refine ⟨?_, ⟨fun _ => .leaf _, fun _ => .leaf _⟩, fun _ => ?_⟩
  · rw [hsound, hsound, h]
  · rw [node, node, h]

omit [Dialect] in
theorem ofMembers_perm {members members' : List (String × Json)} (h : members.Perm members') :
    (ofMembers members).Perm (ofMembers members') := by
  induction h with
  | nil => exact .refl _
  | cons m _ ih => exact ih.append_left _
  | swap m m' members => exact List.perm_append_comm_assoc _ _ _
  | trans _ _ ih ih' => exact ih.trans ih'

theorem alike_of_perm {members members' : List (String × Json)} (hperm : members.Perm members')
    (h : (Keyed.keys members).Nodup) (grouped : Bool) (key : String) (marker : Option String) :
    AllAlike grouped (ofNode key marker (.object members)) (ofNode key marker (.object members')) := by
  rw [ofNode_eq, ofNode_eq, NodeKind.classify_of_perm hperm]
  cases NodeKind.classify marker (.object members') with
  | layout =>
    rw [Json.member?, Json.member?, Keyed.get?_of_perm hperm h]
    exact .refl _ _
  | array => exact .refl _ _
  | group => exact .cons (AllAlike.of_perm (ofMembers_perm hperm)).group (.nil _)
  | leaf => exact .cons (alike_leaf (leafOf?_of_perm hperm h)) (.nil _)

omit [Dialect] in
theorem ofNode_layout {before later : List (String × Json)} (h : ∀ m ∈ before, m.1 ≠ "content")
    (content : List (String × Json)) (key : String) :
    ofNode key (some NodeKind.layoutMarker) (.object (before ++ ("content", .object content) :: later)) =
      ofMembers content := by
  have hget : Keyed.get? "content" (before ++ ("content", .object content) :: later) =
      some (.object content) := by
    induction before with
    | nil => rfl
    | cons m before ih =>
      obtain ⟨hm, hbefore⟩ := List.forall_mem_cons.mp h
      rw [List.cons_append, Keyed.get?_cons, if_neg hm, ih hbefore]
  rw [ofNode_eq, NodeKind.classify, if_pos rfl, Json.member?, hget]
  rfl

mutual
theorem alike_ofNode {grouped : Bool} {marker : Option String} {node node' : Json}
    (h : Reordered grouped marker node node') (key : String) :
    AllAlike grouped (ofNode key marker node) (ofNode key marker node') := by
  match h with
  | .same _ _ _ => exact .refl _ _
  | .trans h h' => exact (alike_ofNode h key).trans (alike_ofNode h' key)
  | .fields _ _ distinct perm => exact alike_of_perm perm distinct _ _ _
  | .group kind below =>
    rw [ofNode_eq, ofNode_eq, below.classify, kind]
    exact .cons (alike_ofMembers below).group (.nil _)
  | @Reordered.array _ _ entries entries' kind below =>
    have kind' : NodeKind.classify marker (.array entries') = .array := kind
    rw [ofNode_eq, ofNode_eq, kind, kind']
    exact .cons (alike_ofEntries below) (.nil _)
  | .layout first below =>
    rw [ofNode_layout first, ofNode_layout first]
    exact alike_ofMembers below
theorem alike_ofMembers {grouped : Bool} {members members' : List (String × Json)}
    (h : MembersReordered grouped members members') :
    AllAlike grouped (ofMembers members) (ofMembers members') := by
  match h with
  | .nil _ => exact .nil _
  | .cons head tail => exact (alike_ofNode head _).append (alike_ofMembers tail)
  | .swap m m' members => exact .of_perm (ofMembers_perm (.swap m' m members))
  | .trans first second => exact (alike_ofMembers first).trans (alike_ofMembers second)
theorem alike_ofEntries {entries entries' : List Json} (h : EntriesReordered entries entries') :
    (array (ofEntries entries)).Alike (array (ofEntries entries')) := by
  match h with
  | .nil => exact .refl _
  | .cons head tail =>
    rw [ofEntries, ofEntries, head.entryKey?]
    exact (alike_ofNode head "").array (alike_ofEntries tail)
end

end Outline

namespace Form

/-- Of two schemas that differ in the written order of members only, either both can be built or neither
can, and the forms have the same controls. -/
theorem build_reordered [Dialect] {members members' : List (String × Json)}
    (h : MembersReordered true members members') (hd : (Outline.ofSchema members).Dotless)
    (messages : Messages) :
    ((∃ f, build (.object members) messages = .ok f) ↔
      ∃ f', build (.object members') messages = .ok f') ∧
    ∀ f f', build (.object members) messages = .ok f → build (.object members') messages = .ok f' →
      f.store = f'.store ∧ f.store.paths = f'.store.paths ∧ f.value = f'.value ∧
        f.status = f'.status ∧ f.store.snapshot = f'.store.snapshot := by
  have halike : (Outline.ofSchema members).Alike (Outline.ofSchema members') :=
    (Outline.alike_ofMembers h).group
  rw [build, build]
  rcases Growth.ofSchema_cases hd messages with ⟨g, hg, hsound, hroot⟩ | ⟨e, he, hunsound⟩
  · rcases Growth.ofSchema_cases (halike.dotless.mp hd) messages with
      ⟨g', hg', -, hroot'⟩ | ⟨-, -, hunsound'⟩
    · have hstore : g.store = g'.store :=
        congrArg Store.mk (hroot.trans ((halike.node hsound).trans hroot'.symm))
      rw [hg, hg']
      refine ⟨⟨fun _ => ⟨_, rfl⟩, fun _ => ⟨_, rfl⟩⟩, ?_⟩
      rintro _ _ ⟨⟩ ⟨⟩
      simp only [ofGrowth, value, status, hstore, and_self]
    · exact absurd (halike.sound.mp hsound) hunsound'
  · rcases Growth.ofSchema_cases (halike.dotless.mp hd) messages with
      ⟨-, -, hsound', -⟩ | ⟨e', he', -⟩
    · exact absurd (halike.sound.mpr hsound') hunsound
    · rw [he, he']
      refine ⟨⟨?_, ?_⟩, ?_⟩
      · rintro ⟨f, hf⟩
        cases hf
      · rintro ⟨f, hf⟩
        cases hf
      · rintro f f' hf
        cases hf

def offer : List (String × Json) :=
  let choice := Json.object [("display", .string "One"), ("value", .int 1)]
  let amount := Json.object [("type", .string "select"), ("options", .array [choice])]
  let rows := Json.array [.object [("from", .null), ("to", .null)]]
  [("F-layout", .object [("content", .object [("amount", amount), ("rows", rows)])]),
    ("address", .object [("street", .null), ("city", .null)])]

def offerReordered : List (String × Json) :=
  let choice := Json.object [("display", .string "One"), ("value", .int 1)]
  let amount := Json.object [("options", .array [choice]), ("type", .string "select")]
  let rows := Json.array [.object [("to", .null), ("from", .null)]]
  [("address", .object [("city", .null), ("street", .null)]),
    ("F-layout", .object [("content", .object [("rows", rows), ("amount", amount)])])]

theorem store_offer_eq :
    MembersReordered true offer offerReordered ∧ (Outline.ofSchema offer).Dotless ∧
      ∃ f f', build (.object offer) [] = .ok f ∧ build (.object offerReordered) [] = .ok f' ∧
        f.store = f'.store := by
  have hreordered : MembersReordered true offer offerReordered := by
    refine .trans (.cons (@Reordered.layout true [] [] _ _ nofun ?_) (.cons ?_ (.nil true))) (.swap _ _ [])
    · refine .trans (.cons ?_ (.cons ?_ (.nil true))) (.swap _ _ [])
      · exact .fields true _ (by decide) (.swap _ _ [])
      · exact .array rfl (.cons (.group rfl (.swap _ _ [])) .nil)
    · exact .group rfl (.swap _ _ [])
  have hdotless : (Outline.ofSchema offer).Dotless := by
    refine .group (by decide) (List.forall_mem_cons.mpr ⟨.leaf _, List.forall_mem_cons.mpr ⟨?_, ?_⟩⟩)
    · refine .array (List.forall_mem_singleton.mpr (.group (by decide) ?_))
      exact List.forall_mem_cons.mpr
        ⟨.group nofun nofun, List.forall_mem_singleton.mpr (.group nofun nofun)⟩
    · refine List.forall_mem_singleton.mpr (.group (by decide) ?_)
      exact List.forall_mem_cons.mpr
        ⟨.group nofun nofun, List.forall_mem_singleton.mpr (.group nofun nofun)⟩
  have hsound : (Outline.ofSchema offer).Sound := by
    refine .group (by decide) (by decide)
      (List.forall_mem_cons.mpr ⟨.leaf rfl, List.forall_mem_cons.mpr ⟨?_, ?_⟩⟩)
    · refine .array (List.forall_mem_singleton.mpr (.group (by decide) (by decide) ?_))
      exact List.forall_mem_cons.mpr ⟨.group nofun List.nodup_nil nofun,
        List.forall_mem_singleton.mpr (.group nofun List.nodup_nil nofun)⟩
    · refine List.forall_mem_singleton.mpr (.group (by decide) (by decide) ?_)
      exact List.forall_mem_cons.mpr ⟨.group nofun List.nodup_nil nofun,
        List.forall_mem_singleton.mpr (.group nofun List.nodup_nil nofun)⟩
  have hf : ∃ f, build (.object offer) [] = .ok f := by
    rcases Growth.ofSchema_cases hdotless [] with ⟨g, hg, -⟩ | ⟨-, -, hunsound⟩
    · exact ⟨ofGrowth g, congrArg (Except.map ofGrowth) hg⟩
    · exact absurd hsound hunsound
  obtain ⟨hiff, hequal⟩ := build_reordered hreordered hdotless []
  obtain ⟨f', hf'⟩ := hiff.mp hf
  obtain ⟨f, hf⟩ := hf
  exact ⟨hreordered, hdotless, f, f', hf, hf', (hequal f f' hf hf').1⟩

end Form

end Formwork
