import Formwork.Form
import Formwork.Proofs.Addition

/-! Outlines: schemas with every layout replaced by the members of its content. An outline tells by
itself whether the schema can be built, and what controls it then has. -/

namespace Formwork

def LocalRule.validator? [Dialect] (rule : LocalRule) : Option LocalValidator :=
  match LocalValidator.ofRule [] rule with
  | .ok (v, _) => some v
  | .error _ => none

def RemoteRule.validator? (rule : RemoteRule) : Option RemoteValidator :=
  match RemoteValidator.ofRule [] rule with
  | .ok (v, _) => some v
  | .error _ => none

/-- Rules that are built one after another while messages are handed on are built each by itself. -/
theorem toOption_threaded {R V S E : Type} {step : S → R → Except E (V × S)}
    {run : S → List R → Except E (List V × S)} {read : R → Option V}
    (hnil : ∀ s, run s [] = .ok ([], s))
    (hcons : ∀ s r rs, run s (r :: rs) =
      (step s r).bind fun x => (run x.2 rs).bind fun y => .ok (x.1 :: y.1, y.2))
    (hstep : ∀ s r, (step s r).toOption.map (·.1) = read r) (s : S) (rs : List R) :
    (run s rs).toOption.map (·.1) = rs.mapM read := by
  induction rs generalizing s with
  | nil =>
    rw [hnil]
    rfl
  | cons r rs ih =>
    rw [List.mapM_cons, ← hstep s r, hcons]
    cases step s r with
    | error e => rfl
    | ok x =>
      have hrest := ih x.2
      show ((run x.2 rs).bind fun y => .ok (x.1 :: y.1, y.2)).toOption.map (·.1) =
        (rs.mapM read).bind fun vs => some (x.1 :: vs)
      rw [← hrest]
      cases run x.2 rs <;> rfl

theorem LocalValidator.toOption_ofRule [Dialect] (messages : Messages) (rule : LocalRule) :
    (ofRule messages rule).toOption.map (·.1) = rule.validator? := by
  unfold LocalRule.validator? ofRule
  by_cases hk : rule.kind = "custom"
  · rw [if_pos hk, if_pos hk]
    cases rule.name with
    | none => rfl
    | some name => cases h : ruleExpression name rule.value <;> simp only [h] <;> rfl
  · rw [if_neg hk, if_neg hk]
    cases Check.ofRule rule <;> rfl

theorem RemoteValidator.toOption_ofRule (messages : Messages) (rule : RemoteRule) :
    (ofRule messages rule).toOption.map (·.1) = rule.validator? := by
  unfold RemoteRule.validator? ofRule
  cases rule.kind with
  | custom => cases ruleExpression rule.name rule.value <;> rfl
  | external => rfl

/-- The messages play no part in which validators a payload gets. -/
theorem Growth.toOption_validators [Dialect] (rules : RuleSet) (messages : Messages) :
    (validators rules messages).toOption.map (fun r => (r.1, r.2.1)) =
      (rules.locals.mapM LocalRule.validator?).bind fun locals =>
        (rules.remotes.mapM RemoteRule.validator?).map fun remotes => (locals, remotes) := by
  have hlocals : (LocalValidator.ofRules messages rules.locals).toOption.map (·.1) =
      rules.locals.mapM LocalRule.validator? :=
    toOption_threaded (fun _ => rfl) (fun _ _ _ => rfl) LocalValidator.toOption_ofRule messages
      rules.locals
  rw [validators, ← hlocals]
  cases LocalValidator.ofRules messages rules.locals with
  | error e => rfl
  | ok r =>
    have hremotes : (RemoteValidator.ofRules r.2 rules.remotes).toOption.map (·.1) =
        rules.remotes.mapM RemoteRule.validator? :=
      toOption_threaded (fun _ => rfl) (fun _ _ _ => rfl) RemoteValidator.toOption_ofRule r.2
        rules.remotes
    rw [← hremotes]
    show ((RemoteValidator.ofRules r.2 rules.remotes).bind fun q =>
      .ok (r.1, q.1, q.2)).toOption.map _ = _
    cases RemoteValidator.ofRules r.2 rules.remotes <;> rfl

namespace LeafSpec

def startValue (spec : LeafSpec) : Json :=
  ((spec.inlineOptions?.bind List.head?).map SelectOption.value).getD .null

def freshLeaf [Dialect] (spec : LeafSpec) (locals : List LocalValidator) (remotes : List RemoteValidator) :
    Leaf where
  value := spec.startValue
  dirty := false
  touched := false
  status := Leaf.statusOf (LocalValidator.runAll locals spec.startValue)
  failures := LocalValidator.runAll locals spec.startValue
  locals := locals
  remotes := remotes
  generation := 0

end LeafSpec

inductive Outline where
  /-- A layout that has no object for its content. -/
  | gap
  | leaf (payload : Json)
  | group (members : List (String × Outline))
  | array (entries : List Outline)

namespace Outline

mutual
/-- What a node amounts to in its place: itself under its key, or the members of a layout. -/
def ofNode (key : String) (marker : Option String) : Json → List (String × Outline)
  | .object members =>
    match NodeKind.classify marker (.object members) with
    | .layout => ofLayout members
    | .group => [(key, group (ofMembers members))]
    | _ => [(key, leaf (.object members))]
  | .array entries =>
    if marker = some NodeKind.layoutMarker then [("", gap)]
    else [(key, array (ofEntries entries))]
  | node =>
    match NodeKind.classify marker node with
    | .layout => [("", gap)]
    | .group => [(key, group [])]
    | _ => [(key, leaf node)]
def ofLayout : List (String × Json) → List (String × Outline)
  | [] => [("", gap)]
  | (field, content) :: rest => if field = "content" then ofContent content else ofLayout rest
def ofContent : Json → List (String × Outline)
  | .object content => ofMembers content
  | _ => [("", gap)]
def ofMembers : List (String × Json) → List (String × Outline)
  | [] => []
  | (key, node) :: rest => ofNode key (some key) node ++ ofMembers rest
def ofEntries : List Json → List Outline
  | [] => []
  | entry :: rest => (ofNode "" (NodeKind.entryKey? entry) entry).map (·.2) ++ ofEntries rest
end

def ofSchema (members : List (String × Json)) : Outline := group (ofMembers members)

theorem ofLayout_eq (members : List (String × Json)) :
    ofLayout members =
      match (Keyed.get? "content" members).bind Json.asObject? with
      | some content => ofMembers content
      | none => [("", gap)] := by
  induction members with
  | nil => rfl
  | cons m members ih =>
    obtain ⟨field, content⟩ := m
    rw [ofLayout, Keyed.get?_cons]
    by_cases hf : field = "content"
    · rw [if_pos hf, if_pos hf]
      cases content <;> rfl
    · rw [if_neg hf, if_neg hf, ih]

theorem ofNode_eq (key : String) (marker : Option String) (node : Json) :
    ofNode key marker node =
      match NodeKind.classify marker node with
      | .layout =>
        match (node.member? "content").bind Json.asObject? with
        | some content => ofMembers content
        | none => [("", gap)]
      | .array => [(key, array (ofEntries (node.asArray?.getD [])))]
      | .group => [(key, group (ofMembers (node.asObject?.getD [])))]
      | .leaf => [(key, leaf node)] := by
  by_cases hm : marker = some NodeKind.layoutMarker
  · cases node <;> simp [ofNode, NodeKind.classify, hm, Json.member?, ofLayout_eq]
  · cases node with
    | object members =>
      cases hc : members.all fun m => m.2.isContainer || m.2.isNull <;>
        simp [ofNode, NodeKind.classify, hm, hc, Json.asObject?]
    | _ => simp [ofNode, NodeKind.classify, hm, Json.asArray?, Json.asObject?, ofMembers]

variable [Dialect]

/-- The fresh leaf of a payload that is an object, reads as a leaf, and has rules that can all be
turned into validators. -/
def leafOf? (payload : Json) : Option Leaf :=
  if payload.asObject?.isNone then none
  else do
    let spec ← LeafSpec.ofJson? payload
    let locals ← spec.rules.locals.mapM LocalRule.validator?
    let remotes ← spec.rules.remotes.mapM RemoteRule.validator?
    some (spec.freshLeaf locals remotes)

theorem leafOf?_eq {payload : Json} {spec : LeafSpec} (h : payload.asObject?.isNone ≠ true)
    (hspec : LeafSpec.ofJson? payload = some spec) (messages : Messages) :
    leafOf? payload =
      ((Growth.validators spec.rules messages).toOption.map fun r => (r.1, r.2.1)).map
        fun v => spec.freshLeaf v.1 v.2 := by
  rw [Growth.toOption_validators, leafOf?, if_neg h, hspec]
  simp only [Option.bind_eq_bind, Option.bind_some]
  cases spec.rules.locals.mapM LocalRule.validator? <;>
    cases spec.rules.remotes.mapM RemoteRule.validator? <;> rfl

/-- Whether the schema can be built: no layout is without content, all leaves can be built, and the
keys of a group are its own. -/
inductive Sound : Outline → Prop
  | leaf {payload : Json} {l : Leaf} (reads : leafOf? payload = some l) : Sound (leaf payload)
  | group {members : List (String × Outline)} (named : ∀ m ∈ members, m.1 ≠ "")
      (distinct : (Keyed.keys members).Nodup) (below : ∀ m ∈ members, Sound m.2) :
      Sound (group members)
  | array {entries : List Outline} (below : ∀ e ∈ entries, Sound e) : Sound (array entries)

inductive Dotless : Outline → Prop
  | gap : Dotless gap
  | leaf (payload : Json) : Dotless (leaf payload)
  | group {members : List (String × Outline)} (keys : ∀ m ∈ members, '.' ∉ m.1.toList)
      (below : ∀ m ∈ members, Dotless m.2) : Dotless (group members)
  | array {entries : List Outline} (below : ∀ e ∈ entries, Dotless e) : Dotless (array entries)

theorem sound_array_iff {es : List Outline} : (array es).Sound ↔ ∀ o ∈ es, o.Sound := by
  refine ⟨fun h => ?_, .array⟩
  cases h with
  | array below => exact below

omit [Dialect] in
theorem dotless_array_iff {es : List Outline} : (array es).Dotless ↔ ∀ o ∈ es, o.Dotless := by
  refine ⟨fun h => ?_, .array⟩
  cases h with
  | array below => exact below

theorem sound_group_iff {os : List (String × Outline)} : (group os).Sound ↔
    (∀ k ∈ Keyed.keys os, k ≠ "") ∧ (Keyed.keys os).Nodup ∧ ∀ m ∈ os, m.2.Sound := by
  constructor
  · intro h
    cases h with
    | group named distinct below => exact ⟨List.forall_mem_map.mpr named, distinct, below⟩
  · rintro ⟨named, distinct, below⟩
    exact .group (fun m hm => named _ (List.mem_map_of_mem hm)) distinct below

omit [Dialect] in
theorem dotless_group_iff {os : List (String × Outline)} : (group os).Dotless ↔
    (∀ k ∈ Keyed.keys os, '.' ∉ k.toList) ∧ ∀ m ∈ os, m.2.Dotless := by
  constructor
  · intro h
    cases h with
    | group keys below => exact ⟨List.forall_mem_map.mpr keys, below⟩
  · rintro ⟨keys, below⟩
    exact .group (fun m hm => keys _ (List.mem_map_of_mem hm)) below

mutual
def node : Outline → Node
  | gap => .group []
  | leaf payload =>
    match leafOf? payload with
    | some l => .leaf l
    | none => .group []
  | group members => .group (Keyed.sorted (memberNodes members))
  | array entries => .array (entryNodes entries)
def memberNodes : List (String × Outline) → Keyed Node
  | [] => []
  | (key, o) :: rest => (key, node o) :: memberNodes rest
def entryNodes : List Outline → List Node
  | [] => []
  | o :: rest => node o :: entryNodes rest
end

theorem keys_memberNodes (os : List (String × Outline)) :
    Keyed.keys (memberNodes os) = Keyed.keys os := by
  induction os with
  | nil => rfl
  | cons m os ih => exact congrArg (m.1 :: ·) ih

mutual
def sources (path : ControlPath) : Outline → List (ControlPath × OptionSource)
  | gap => []
  | leaf payload =>
    (((LeafSpec.ofJson? payload).bind LeafSpec.optionSource?).map fun s => (path, s)).toList
  | group members => memberSources path members
  | array entries => entrySources path 0 entries
def memberSources (path : ControlPath) :
    List (String × Outline) → List (ControlPath × OptionSource)
  | [] => []
  | (key, o) :: rest => sources (path.childKey key) o ++ memberSources path rest
def entrySources (path : ControlPath) (index : Nat) :
    List Outline → List (ControlPath × OptionSource)
  | [] => []
  | o :: rest => sources (path.childIndex index) o ++ entrySources path (index + 1) rest
end

end Outline

end Formwork
