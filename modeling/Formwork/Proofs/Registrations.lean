import Formwork.Proofs.Outline
import Formwork.Proofs.Registry

/-! The messages that a schema registers, and that every validator of its leaves has one. -/

namespace Formwork

open Keyed (putAll)

def ruleMessage (name : String) (text : Option String) : Message :=
  .fixed (text.getD ("Validation '" ++ name ++ "' failed"))

/-- Of the rules that are checked locally, only those of a custom kind bring a message. -/
def LocalRule.registrations (rule : LocalRule) : Keyed Message :=
  if rule.kind = "custom" then
    (rule.name.map fun name => (name, ruleMessage name rule.message)).toList
  else []

def RemoteRule.registrations (rule : RemoteRule) : Keyed Message :=
  [(rule.name, ruleMessage rule.name rule.message)]

def RuleSet.registrations (rules : RuleSet) : Keyed Message :=
  rules.locals.flatMap LocalRule.registrations ++ rules.remotes.flatMap RemoteRule.registrations

/-- A key that has a message, be it one of those that are always there or one of the given entries. -/
def Registered (entries : Keyed Message) (key : String) : Prop :=
  key ∈ Messages.builtins.keys ∨ key ∈ entries.keys

theorem Registered.mono {entries more : Keyed Message} {key : String} (h : Registered entries key)
    (hsub : entries ⊆ more) : Registered more key := by
  obtain h | h := h
  · exact .inl h
  · exact .inr (List.map_subset _ hsub h)

theorem Check.key_mem_builtins (c : Check) : c.key ∈ Messages.builtins.keys := by
  cases c <;> simp [key, Messages.builtins, Keyed.keys]

theorem LocalValidator.registered_ofRule [Dialect] (messages : Messages) (rule : LocalRule)
    (v : LocalValidator) (messages' : Messages) (h : ofRule messages rule = .ok (v, messages')) :
    messages' = putAll messages rule.registrations ∧ Registered rule.registrations v.key := by
  unfold ofRule at h
  by_cases hkind : rule.kind = "custom"
  · rw [if_pos hkind] at h
    cases hname : rule.name with
    | none => simp [hname] at h
    | some name =>
      simp only [hname] at h
      obtain ⟨e, -, h⟩ := exists_ok_of_bind h
      cases h
      have hentries : rule.registrations = [(name, ruleMessage name rule.message)] := by
        simp [LocalRule.registrations, hkind, hname]
      rw [hentries]
      exact ⟨rfl, .inr List.mem_cons_self⟩
  · have hentries : rule.registrations = [] := if_neg hkind
    rw [if_neg hkind] at h
    rw [hentries]
    cases hcheck : Check.ofRule rule with
    | error e =>
      rw [hcheck] at h
      cases h
    | ok c =>
      rw [hcheck] at h
      cases h
      exact ⟨rfl, .inl c.key_mem_builtins⟩

theorem RemoteValidator.registered_ofRule (messages : Messages) (rule : RemoteRule)
    (v : RemoteValidator) (messages' : Messages) (h : ofRule messages rule = .ok (v, messages')) :
    messages' = putAll messages rule.registrations ∧ Registered rule.registrations v.name := by
  have hname : v.name = rule.name ∧ messages' = messages.registerRule rule.name rule.message := by
    unfold ofRule at h
    cases hkind : rule.kind with
    | custom =>
      simp only [hkind] at h
      cases he : ruleExpression rule.name rule.value with
      | error e =>
        rw [he] at h
        cases h
      | ok e =>
        rw [he] at h
        cases h
        exact ⟨rfl, rfl⟩
    | external =>
      simp only [hkind] at h
      cases h
      exact ⟨rfl, rfl⟩
  exact ⟨hname.2, .inr (by simp [RemoteRule.registrations, Keyed.keys, hname.1])⟩

theorem registered_threaded {R V E : Type} {step : Messages → R → Except E (V × Messages)}
    {run : Messages → List R → Except E (List V × Messages)} {entries : R → Keyed Message}
    {key : V → String}
    (hstep : ∀ m r v m', step m r = .ok (v, m') →
      m' = putAll m (entries r) ∧ Registered (entries r) (key v))
    (hnil : ∀ m, run m [] = .ok ([], m))
    (hcons : ∀ m r rs, run m (r :: rs) =
      (step m r).bind fun x => (run x.2 rs).bind fun y => .ok (x.1 :: y.1, y.2))
    {m m' : Messages} {rs : List R} {vs : List V} (h : run m rs = .ok (vs, m')) :
    m' = putAll m (rs.flatMap entries) ∧ ∀ v ∈ vs, Registered (rs.flatMap entries) (key v) := by
  induction rs generalizing m vs with
  | nil =>
    rw [hnil] at h
    cases h
    exact ⟨rfl, nofun⟩
  | cons r rs ih =>
    rw [hcons] at h
    obtain ⟨⟨v, m₁⟩, hr, h⟩ := exists_ok_of_bind h
    obtain ⟨⟨ws, m₂⟩, hrs, h⟩ := exists_ok_of_bind h
    cases h
    obtain ⟨hm₁, hv⟩ := hstep m r v m₁ hr
    obtain ⟨hm₂, hws⟩ := ih hrs
    rw [List.flatMap_cons]
    refine ⟨by rw [hm₂, hm₁, Keyed.putAll_append], List.forall_mem_cons.mpr ⟨?_, fun w hw => ?_⟩⟩
    · exact hv.mono (List.subset_append_left ..)
    · exact (hws w hw).mono (List.subset_append_right ..)

structure Leaf.Registered (entries : Keyed Message) (l : Leaf) : Prop where
  locals : ∀ v ∈ l.locals, Formwork.Registered entries v.key
  remotes : ∀ v ∈ l.remotes, Formwork.Registered entries v.name

theorem Growth.registered_validators [Dialect] {rules : RuleSet} {messages messages' : Messages}
    {locals : List LocalValidator} {remotes : List RemoteValidator}
    (h : validators rules messages = .ok (locals, remotes, messages')) :
    messages' = putAll messages rules.registrations ∧
      (∀ v ∈ locals, Registered rules.registrations v.key) ∧
      ∀ v ∈ remotes, Registered rules.registrations v.name := by
  obtain ⟨⟨ls, m₁⟩, hls, h⟩ := exists_ok_of_bind h
  obtain ⟨⟨rs, m₂⟩, hrs, h⟩ := exists_ok_of_bind h
  cases h
  obtain ⟨hm₁, hlocals⟩ : m₁ = putAll messages (rules.locals.flatMap LocalRule.registrations) ∧
      ∀ v ∈ locals, Registered (rules.locals.flatMap LocalRule.registrations) v.key :=
    registered_threaded LocalValidator.registered_ofRule (fun _ => rfl) (fun _ _ _ => rfl) hls
  obtain ⟨hm₂, hremotes⟩ : messages' = putAll m₁ (rules.remotes.flatMap RemoteRule.registrations) ∧
      ∀ v ∈ remotes, Registered (rules.remotes.flatMap RemoteRule.registrations) v.name :=
    registered_threaded RemoteValidator.registered_ofRule (fun _ => rfl) (fun _ _ _ => rfl) hrs
  refine ⟨by rw [hm₂, hm₁, RuleSet.registrations, Keyed.putAll_append], fun v hv => ?_, fun v hv => ?_⟩
  · exact (hlocals v hv).mono (List.subset_append_left ..)
  · exact (hremotes v hv).mono (List.subset_append_right ..)

namespace Outline

def payloadRegistrations (payload : Json) : Keyed Message :=
  ((LeafSpec.ofJson? payload).map fun spec => spec.rules.registrations).getD []

mutual
def payloads : Outline → List Json
  | gap => []
  | leaf payload => [payload]
  | group members => memberPayloads members
  | array entries => entryPayloads entries
def memberPayloads : List (String × Outline) → List Json
  | [] => []
  | (_, o) :: rest => payloads o ++ memberPayloads rest
def entryPayloads : List Outline → List Json
  | [] => []
  | o :: rest => payloads o ++ entryPayloads rest
end

theorem memberPayloads_eq (os : List (String × Outline)) :
    memberPayloads os = entryPayloads (os.map (·.2)) := by
  induction os with
  | nil => rfl
  | cons m os ih => exact congrArg (payloads m.2 ++ ·) ih

theorem entryPayloads_append (os os' : List Outline) :
    entryPayloads (os ++ os') = entryPayloads os ++ entryPayloads os' := by
  induction os with
  | nil => rfl
  | cons o os ih => rw [List.cons_append, entryPayloads, entryPayloads, ih, List.append_assoc]

theorem memberPayloads_append (os os' : List (String × Outline)) :
    memberPayloads (os ++ os') = memberPayloads os ++ memberPayloads os' := by
  rw [memberPayloads_eq, List.map_append, entryPayloads_append, ← memberPayloads_eq, ← memberPayloads_eq]

def registrations (o : Outline) : Keyed Message := o.payloads.flatMap payloadRegistrations

theorem registered_of_leafOf? [Dialect] {payload : Json} {l : Leaf} (h : leafOf? payload = some l) :
    l.Registered (payloadRegistrations payload) := by
  have hobject : payload.asObject?.isNone ≠ true := by
    intro hnone
    rw [leafOf?, if_pos hnone] at h
    cases h
  cases hspec : LeafSpec.ofJson? payload with
  | none =>
    rw [leafOf?, if_neg hobject, hspec] at h
    cases h
  | some spec =>
    rw [leafOf?_eq hobject hspec []] at h
    cases hv : Growth.validators spec.rules [] with
    | error e =>
      rw [hv] at h
      cases h
    | ok r =>
      obtain ⟨locals, remotes, messages⟩ := r
      rw [hv] at h
      cases h
      obtain ⟨-, hlocals, hremotes⟩ := Growth.registered_validators hv
      have hentries : payloadRegistrations payload = spec.rules.registrations := by
        simp [payloadRegistrations, hspec]
      rw [hentries]
      exact ⟨hlocals, hremotes⟩

end Outline

end Formwork
