import Formwork.Dialect.Common
import Formwork.Proofs.Planting
import Formwork.Proofs.Walk

/-! A form is grown from a schema exactly if the outline of the schema is sound, and has the controls
of the outline then. Growing below a path only changes the container that the path leads to. -/

namespace Formwork

namespace Growth

open Node (Branch Fits planted plantedSources)

/-- The tree is a base in which a path leads to the container that is being filled. -/
structure Focus (base : Node) (p : ControlPath) (c : Node) (g : Growth) : Prop where
  root : g.store.root = base.modify (fun _ => c) p.segments
  there : ∃ d, base.resolve p.segments = some d
  group_of_root : p = .root → c.bare = .group []

/-- The outcome of growing outlines in a container, the given sources being there before: all of them
are in it, or they do not fit. -/
inductive Grown [Dialect] (base : Node) (p : ControlPath) (c : Node) (sources : List (ControlPath × OptionSource))
    (os : List (String × Outline)) : Step → Prop
  | ok {g : Growth} (fits : c.Fits os) (focus : Focus base p (c.planted os) g)
      (grown : g.sources = sources ++ plantedSources p c os) : Grown base p c sources os (.ok g)
  | error (e : Failure) (unfit : ¬ c.Fits os) : Grown base p c sources os (.error e)

/-- In a group, the keys of the outlines have no points, and neither have those further below. -/
structure Clean (c : Node) (os : List (String × Outline)) : Prop where
  keys : c.bare = .group [] → ∀ m ∈ os, '.' ∉ m.1.toList
  below : ∀ m ∈ os, m.2.Dotless

variable {base c : Node} {p : ControlPath} {g : Growth} {os os' : List (String × Outline)}

theorem Clean.of_append [Dialect] (h : Clean c (os ++ os')) : Clean c os ∧ Clean (c.planted os) os' := by
  refine ⟨⟨fun hc m hm => h.keys hc m (List.mem_append_left _ hm),
    fun m hm => h.below m (List.mem_append_left _ hm)⟩,
    ⟨fun hc m hm => h.keys ?_ m (List.mem_append_right _ hm),
      fun m hm => h.below m (List.mem_append_right _ hm)⟩⟩
  rwa [Node.bare_planted] at hc

theorem Focus.resolve (h : Focus base p c g) : g.store.resolve p = some c := by
  obtain ⟨d, hd⟩ := h.there
  rw [Store.resolve, h.root]
  exact Node.resolve_modify hd _

theorem Focus.of_store {g' : Growth} (h : Focus base p c g) (hs : g'.store = g.store) :
    Focus base p c g' :=
  ⟨by rw [hs, h.root], h.there, h.group_of_root⟩

theorem Grown.nil [Dialect] (h : Focus base p c g) : Grown base p c g.sources [] (.ok g) :=
  .ok trivial h (List.append_nil _).symm

theorem Grown.bind [Dialect] {sources : List (ControlPath × OptionSource)} {r : Step} {k : Growth → Step}
    (h : Grown base p c sources os r)
    (hk : ∀ g, Focus base p (c.planted os) g → Grown base p (c.planted os) g.sources os' (k g)) :
    Grown base p c sources (os ++ os') (r.bind k) := by
  cases h with
  | error e unfit => exact .error e fun hf => unfit ((Node.fits_append c os os').mp hf).1
  | @ok g fits focus grown =>
    have hrest := hk g focus
    show Grown base p c sources (os ++ os') (k g)
    generalize k g = r at hrest ⊢
    cases hrest with
    | error e unfit => exact .error e fun hf => unfit ((Node.fits_append c os os').mp hf).2
    | ok fits' focus' grown' =>
      refine .ok ((Node.fits_append c os os').mpr ⟨fits, fits'⟩) ?_ ?_
      · rw [Node.planted_append]
        exact focus'
      · rw [grown', grown, Node.plantedSources_append, List.append_assoc]

theorem allocate_of_place {key : String} {b : Branch} (h : Focus base p c g)
    (hb : c.place? key = some b) (kind : NodeKind) (n : Node) :
    ∃ g', g.allocate key p kind n = .ok (p.child b, g') ∧ g'.sources = g.sources ∧
      Focus base p (c.adding key n) g' := by
  let g' := { g with
    store := g.store.setNode p (c.adding key n)
    events := g.events ++ [Event.nodeAllocated (p.child b) kind] }
  have hok : g.allocate key p kind n = .ok (p.child b, g') := by
    rw [allocate, Store.add_of_place h.resolve hb]
  refine ⟨g', hok, rfl, ?_, h.there, ?_⟩
  · obtain ⟨d, hd⟩ := h.there
    show g.store.root.modify (fun _ => c.adding key n) p.segments = _
    rw [h.root, Node.modify_modify hd]
  · rw [Node.bare_adding]
    exact h.group_of_root

theorem allocate_of_no_place {key : String} (h : Focus base p c g) (hb : c.place? key = none)
    (kind : NodeKind) (n : Node) : ∃ e, g.allocate key p kind n = .error e := by
  obtain ⟨e, he⟩ := Store.add_of_no_place h.resolve hb n
  exact ⟨_, by rw [allocate, he]⟩

theorem allocate_eq_ok {g g' : Growth} {key : String} {parent path : ControlPath} {kind : NodeKind}
    {n : Node} (h : g.allocate key parent kind n = .ok (path, g')) :
    ∃ store, g.store.add key parent n = .ok (path, store) ∧
      g' = { g with store := store, events := g.events ++ [.nodeAllocated path kind] } := by
  rw [allocate] at h
  cases hadd : g.store.add key parent n with
  | error e =>
    rw [hadd] at h
    cases h
  | ok r =>
    rw [hadd] at h
    cases h
    exact ⟨_, rfl, rfl⟩

section Child

variable {key : String} {b : Branch} {n : Node}

theorem segments_child (hp : p = .root → c.bare = .group []) (hb : c.place? key = some b)
    (hplain : b.Plain) :
    p.child b ≠ .root ∧ (p.child b).segments = p.segments ++ [b.text] := by
  have hkey : p = .root → ∃ k, b = .key k := fun h =>
    Node.key_of_group ((Node.bare_adding c key c).trans (hp h)) (Node.below?_adding_self hb c)
  exact ⟨ControlPath.child_ne_root hplain hkey, ControlPath.segments_child hplain hkey⟩

theorem Focus.enter (h : Focus base p (c.adding key n) g)
    (hp : p = .root → c.bare = .group []) (hb : c.place? key = some b) (hplain : b.Plain) :
    Focus g.store.root (p.child b) n g := by
  obtain ⟨d, hd⟩ := h.there
  obtain ⟨hne, hsegments⟩ := segments_child hp hb hplain
  refine ⟨?_, ⟨n, ?_⟩, fun he => absurd he hne⟩
  · rw [h.root, hsegments, Node.modify_adding_child hd hb]
  · rw [h.root, hsegments, Node.resolve_adding_child hd hb]

theorem Focus.leave {g' : Growth} {m : Node} (h : Focus base p (c.adding key n) g)
    (h' : Focus g.store.root (p.child b) m g') (hp : p = .root → c.bare = .group [])
    (hb : c.place? key = some b) (hplain : b.Plain) : Focus base p (c.adding key m) g' := by
  obtain ⟨d, hd⟩ := h.there
  obtain ⟨-, hsegments⟩ := segments_child hp hb hplain
  refine ⟨?_, h.there, ?_⟩
  · rw [h'.root, h.root, hsegments, Node.modify_adding_child hd hb]
  · rw [Node.bare_adding]
    exact hp

end Child

theorem store_call (g : Growth) (r : RenderCall) : (g.call r).store = g.store := rfl

theorem sources_call (g : Growth) (r : RenderCall) : (g.call r).sources = g.sources := rfl

theorem not_fits_of_no_place [Dialect] {key : String} {o : Outline} (h : c.place? key = none) :
    ¬ c.Fits [(key, o)] := by
  rintro ⟨-, hplace, -⟩
  rw [h] at hplace
  cases hplace

theorem grown_opened [Dialect] {key : String} {o : Outline} {n : Node} {kind : NodeKind}
    {k : ControlPath × Growth → Step} (h : Focus base p c g) (hclean : Clean c [(key, o)])
    (hopens : Node.Opens o n os)
    (hk : ∀ path g', Focus g'.store.root path n g' →
      Grown g'.store.root path n g'.sources os (k (path, g'))) :
    Grown base p c g.sources [(key, o)] ((g.allocate key p kind n).bind k) := by
  cases hb : c.place? key with
  | none =>
    obtain ⟨e, he⟩ := allocate_of_no_place h hb kind n
    rw [he]
    exact .error e (not_fits_of_no_place hb)
  | some b =>
    have hplain : b.Plain :=
      Node.plain_of_place hb fun hc => hclean.keys hc _ (List.mem_singleton.mpr rfl)
    obtain ⟨g₁, hok, hsources, hfocus⟩ := allocate_of_place h hb kind n
    have hgrown := hk (p.child b) g₁ (hfocus.enter h.group_of_root hb hplain)
    rw [hok]
    show Grown base p c g.sources [(key, o)] (k (p.child b, g₁))
    generalize k (p.child b, g₁) = r at hgrown ⊢
    cases hgrown with
    | error e unfit => exact .error e fun hfits => unfit (hopens.sound.mp hfits.1)
    | ok fits focus grown =>
      refine .ok ⟨hopens.sound.mpr fits, by rw [hb]; rfl, trivial⟩ ?_ ?_
      · rw [Node.planted_singleton, hopens.node]
        exact hfocus.leave focus h.group_of_root hb hplain
      · rw [grown, hsources, ← hopens.sources _ fits]
        simp [plantedSources, hb]

theorem addSource_eq (g : Growth) (path : ControlPath) (spec : LeafSpec) :
    g.addSource path spec =
      { g with sources := g.sources ++ (spec.optionSource?.map fun s => (path, s)).toList } := by
  cases hs : spec.optionSource? <;> simp [addSource, hs]

theorem growLeaf_cases [Dialect] (g : Growth) (p : ControlPath) (key : String) (payload : Json) :
    (∃ e, g.growLeaf p key payload = .error e ∧ Outline.leafOf? payload = none) ∨
    ∃ spec l messages, LeafSpec.ofJson? payload = some spec ∧ Outline.leafOf? payload = some l ∧
      validators spec.rules g.messages = .ok (l.locals, l.remotes, messages) ∧
      g.growLeaf p key payload =
        (allocate { g with messages := messages } key p .leaf (.leaf l)).bind fun x =>
          .ok ((x.2.addSource x.1 spec).call (.control x.1 key spec.type)) := by
  by_cases hobject : payload.asObject?.isNone = true
  · exact .inl ⟨_, by rw [growLeaf, if_pos hobject]; rfl, if_pos hobject⟩
  · cases hspec : LeafSpec.ofJson? payload with
    | none =>
      have hleaf : Outline.leafOf? payload = none := by
        rw [Outline.leafOf?, if_neg hobject, hspec]
        rfl
      exact .inl ⟨_, by rw [growLeaf, if_neg hobject, hspec]; rfl, hleaf⟩
    | some spec =>
      have hleaf := Outline.leafOf?_eq hobject hspec g.messages
      cases hv : validators spec.rules g.messages with
      | error e =>
        rw [hv] at hleaf
        refine .inl ⟨⟨.schema e, g⟩, ?_, hleaf⟩
        rw [growLeaf, if_neg hobject, hspec]
        simp only [hv]
        rfl
      | ok r =>
        obtain ⟨locals, remotes, messages⟩ := r
        rw [hv] at hleaf
        refine .inr ⟨spec, leafOf spec locals remotes, messages, rfl, hleaf, hv, ?_⟩
        rw [growLeaf, if_neg hobject, hspec]
        simp only [hv]
        rfl

theorem grown_growLeaf [Dialect] (h : Focus base p c g) (key : String) (payload : Json) :
    Grown base p c g.sources [(key, .leaf payload)] (g.growLeaf p key payload) := by
  rcases growLeaf_cases g p key payload with ⟨e, he, hl⟩ | ⟨spec, l, messages, hspec, hl, -, he⟩
  · rw [he]
    refine .error e fun hfits => ?_
    cases hfits.1 with
    | leaf reads => cases hl.symm.trans reads
  · have hnode : (Outline.leaf payload).node = .leaf l := by rw [Outline.node, hl]
    have hf : Focus base p c { g with messages := messages } := h.of_store rfl
    rw [he]
    cases hb : c.place? key with
    | none =>
      obtain ⟨e, he⟩ := allocate_of_no_place hf hb .leaf (.leaf l)
      rw [he]
      exact .error e (not_fits_of_no_place hb)
    | some b =>
      obtain ⟨g₁, hok, hsources, hfocus⟩ := allocate_of_place hf hb .leaf (.leaf l)
      rw [hok]
      refine .ok ⟨.leaf hl, by rw [hb]; rfl, trivial⟩ ?_ ?_
      · rw [Node.planted_singleton, hnode]
        exact hfocus.of_store ((store_call _ _).trans (by rw [addSource_eq]))
      · rw [sources_call, addSource_eq, hsources, plantedSources, hb, Option.map_some,
          Option.getD_some, Outline.sources, hspec, plantedSources, List.append_nil]
        rfl

/-- The outlines of array entries under the keys that they are grown with. -/
def entryOutlines (index : Nat) : List Json → List (String × Outline)
  | [] => []
  | entry :: rest =>
    let marker := NodeKind.entryKey? entry
    Outline.ofNode (marker.getD (Text.natText index)) marker entry ++ entryOutlines (index + 1) rest

theorem map_snd_ofNode (key key' : String) (marker : Option String) (node : Json) :
    (Outline.ofNode key marker node).map (·.2) = (Outline.ofNode key' marker node).map (·.2) := by
  rw [Outline.ofNode_eq, Outline.ofNode_eq]
  cases NodeKind.classify marker node <;> rfl

theorem map_snd_entryOutlines (index : Nat) (entries : List Json) :
    (entryOutlines index entries).map (·.2) = Outline.ofEntries entries := by
  induction entries generalizing index with
  | nil => rfl
  | cons e entries ih =>
    rw [entryOutlines, Outline.ofEntries, List.map_append, ih, map_snd_ofNode _ ""]

theorem Clean.of_group {key : String} {os' : List (String × Outline)}
    (h : Clean c [(key, .group os')]) : Clean (.group []) os' := by
  cases h.below _ List.mem_cons_self with
  | group keys below => exact ⟨fun _ => keys, below⟩

theorem Clean.of_array {key : String} {entries : List Json}
    (h : Clean c [(key, .array (Outline.ofEntries entries))]) :
    Clean (.array []) (entryOutlines 0 entries) := by
  cases h.below _ List.mem_cons_self with
  | array below =>
    refine ⟨nofun, fun m hm => below m.2 ?_⟩
    rw [← map_snd_entryOutlines 0 entries]
    exact List.mem_map_of_mem hm

theorem grown_gap [Dialect] {sources : List (ControlPath × OptionSource)} (key : String) (e : Failure) :
    Grown base p c sources [(key, .gap)] (.error e) :=
  .error e fun hfits => nomatch hfits.1

def Grows [Dialect] (os : List (String × Outline)) (step : ControlPath → Growth → Step) : Prop :=
  ∀ ⦃base c : Node⦄ ⦃p : ControlPath⦄ ⦃g : Growth⦄, Focus base p c g → Clean c os →
    Grown base p c g.sources os (step p g)

section Cases

variable [Dialect] {marker : Option String} {node : Json}

theorem grows_layout (kind : NodeKind.classify marker node = .layout)
    (below : ∀ content, (node.member? "content").bind Json.asObject? = some content → ∀ classes,
      Grows (Outline.ofMembers content) fun p => growMembers p classes content)
    (key classes : String) :
    Grows (Outline.ofNode key marker node) fun p => growNode p key marker classes node := by
  intro base c p g h hclean
  simp only [Outline.ofNode_eq, growNode_eq, kind] at hclean ⊢
  cases hc : (node.member? "content").bind Json.asObject? with
  | none => exact grown_gap _ _
  | some content =>
    rw [hc] at hclean
    exact below content hc _ (h.of_store (store_call _ _)) hclean

theorem grows_group (kind : NodeKind.classify marker node = .group)
    (below : ∀ classes, Grows (Outline.ofMembers (node.asObject?.getD [])) fun p =>
      growMembers p classes (node.asObject?.getD [])) (key classes : String) :
    Grows (Outline.ofNode key marker node) fun p => growNode p key marker classes node := by
  intro base c p g h hclean
  simp only [Outline.ofNode_eq, growNode_eq, kind] at hclean ⊢
  refine grown_opened h hclean (Node.opens_group _) fun path g' hf => ?_
  exact below classes (hf.of_store (store_call _ _)) hclean.of_group

theorem grows_array (kind : NodeKind.classify marker node = .array)
    (below : ∀ index classes, Grows (entryOutlines index (node.asArray?.getD [])) fun p =>
      growEntries p index classes (node.asArray?.getD [])) (key classes : String) :
    Grows (Outline.ofNode key marker node) fun p => growNode p key marker classes node := by
  intro base c p g h hclean
  simp only [Outline.ofNode_eq, growNode_eq, kind] at hclean ⊢
  have hopens := Node.opens_array (entryOutlines 0 (node.asArray?.getD []))
  rw [map_snd_entryOutlines] at hopens
  refine grown_opened h hclean hopens fun path g' hf => ?_
  exact below 0 classes (hf.of_store (store_call _ _)) hclean.of_array

theorem grows_leaf (kind : NodeKind.classify marker node = .leaf) (key classes : String) :
    Grows (Outline.ofNode key marker node) fun p => growNode p key marker classes node := by
  intro base c p g h _
  simp only [Outline.ofNode_eq, growNode_eq, kind]
  exact grown_growLeaf h key node

theorem Grows.cons {os os' : List (String × Outline)} {step rest : ControlPath → Growth → Step}
    (h : Grows os step) (hrest : Grows os' rest) :
    Grows (os ++ os') fun p g => (step p g).bind (rest p) := by
  intro base c p g hf hclean
  obtain ⟨hfirst, hothers⟩ := hclean.of_append
  exact (h hf hfirst).bind fun g' hf' => hrest hf' hothers

theorem grows : NodeKind.Cases
    (fun marker node => ∀ key classes, Grows (Outline.ofNode key marker node) fun p =>
      growNode p key marker classes node)
    (fun members => ∀ classes, Grows (Outline.ofMembers members) fun p =>
      growMembers p classes members)
    (fun entries => ∀ index classes, Grows (entryOutlines index entries) fun p =>
      growEntries p index classes entries) where
  layout := grows_layout
  group := grows_group
  array := grows_array
  leaf := grows_leaf
  noMembers _ _ _ _ _ h _ := .nil h
  members first others classes := (first _ classes).cons (others classes)
  noEntries _ _ _ _ _ _ h _ := .nil h
  entries first others index classes := (first _ classes).cons (others (index + 1) classes)

end Cases

theorem focus_start (messages : Messages) :
    Focus (.group []) .root (.group []) (start messages) :=
  ⟨rfl, ⟨_, rfl⟩, fun _ => rfl⟩

theorem grown_ofSchema [Dialect] {members : List (String × Json)} (h : (Outline.ofSchema members).Dotless)
    (messages : Messages) :
    Grown (.group []) .root (.group []) [] (Outline.ofMembers members)
      (ofSchema messages (.object members)) := by
  cases h with
  | group keys below => exact grows.ofMembers members "" (focus_start messages) ⟨fun _ => keys, below⟩

/-- Growing either gives the controls of the outline, or fails because the outline is not sound. -/
theorem ofSchema_cases [Dialect] {members : List (String × Json)} (h : (Outline.ofSchema members).Dotless)
    (messages : Messages) :
    (∃ g, ofSchema messages (.object members) = .ok g ∧ (Outline.ofSchema members).Sound ∧
      g.store.root = (Outline.ofSchema members).node) ∨
    ∃ e, ofSchema messages (.object members) = .error e ∧ ¬ (Outline.ofSchema members).Sound := by
  have hopens := Node.opens_group (Outline.ofMembers members)
  have hgrown := grown_ofSchema h messages
  generalize ofSchema messages (.object members) = r at hgrown ⊢
  cases hgrown with
  | ok fits focus _ =>
    exact .inl ⟨_, rfl, hopens.sound.mpr fits, focus.root.trans hopens.node.symm⟩
  | error e unfit => exact .inr ⟨e, rfl, fun hs => unfit (hopens.sound.mp hs)⟩

end Growth

namespace Form

/-- A schema without points in the keys of its groups can be built exactly if its outline is sound. The
form then has the controls and the sources of the outline. -/
theorem build_object [Dialect] (members : List (String × Json)) (messages : Messages)
    (h : (Outline.ofSchema members).Dotless) :
    ((∃ f, build (.object members) messages = .ok f) ↔ (Outline.ofSchema members).Sound) ∧
      ∀ f, build (.object members) messages = .ok f →
        f.store.root = (Outline.ofSchema members).node ∧
          f.sources = (Outline.ofSchema members).sources .root := by
  have hopens := Node.opens_group (Outline.ofMembers members)
  have hgrown := Growth.grown_ofSchema h messages
  rw [build]
  generalize Growth.ofSchema messages (.object members) = r at hgrown ⊢
  cases hgrown with
  | error e unfit =>
    refine ⟨⟨?_, fun hs => absurd (hopens.sound.mp hs) unfit⟩, ?_⟩
    · rintro ⟨f, hf⟩
      cases hf
    · intro f hf
      cases hf
  | ok fits focus grown =>
    refine ⟨⟨fun _ => hopens.sound.mpr fits, fun _ => ⟨_, rfl⟩⟩, ?_⟩
    intro f hf
    cases hf
    exact ⟨focus.root.trans hopens.node.symm, grown.trans (hopens.sources .root fits).symm⟩

def layoutInArray : List (String × Json) :=
  let select := Json.object [("type", .string "select"),
    ("options", .object [("url", .string "https://codes.test")])]
  let entry := Json.object [("key", .string "F-layout"), ("content", .object [("code", select)])]
  let content := Json.object [("text", .object [("type", .string "input")]), ("rows", .array [entry])]
  [("F-layout", .object [("content", content)]), ("address", .null)]

theorem build_layoutInArray :
    (Outline.ofSchema layoutInArray).Dotless ∧ ∃ f, build (.object layoutInArray) [] = .ok f ∧
      f.store.paths = [.root, ⟨"address"⟩, ⟨"rows"⟩, ⟨"rows.0"⟩, ⟨"text"⟩] ∧
      f.sources = [(⟨"rows.0"⟩, ⟨"https://codes.test", none, none⟩)] := by
  have hdotless : (Outline.ofSchema layoutInArray).Dotless := by
    refine .group (by decide) (List.forall_mem_cons.mpr ⟨.leaf _, List.forall_mem_cons.mpr ⟨?_, ?_⟩⟩)
    · exact .array (List.forall_mem_singleton.mpr (.leaf _))
    · exact List.forall_mem_singleton.mpr (.group nofun nofun)
  have hsound : (Outline.ofSchema layoutInArray).Sound := by
    refine .group (by decide) (by decide)
      (List.forall_mem_cons.mpr ⟨.leaf rfl, List.forall_mem_cons.mpr ⟨?_, ?_⟩⟩)
    · exact .array (List.forall_mem_singleton.mpr (.leaf rfl))
    · exact List.forall_mem_singleton.mpr (.group nofun List.nodup_nil nofun)
  obtain ⟨f, hf⟩ := (build_object layoutInArray [] hdotless).1.mpr hsound
  obtain ⟨hroot, hsources⟩ := (build_object layoutInArray [] hdotless).2 f hf
  refine ⟨hdotless, f, hf, ?_, ?_⟩
  · rw [Store.paths, Store.nodes, hroot]
    decide
  · rw [hsources]
    decide

end Form

end Formwork
