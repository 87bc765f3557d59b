import Formwork.Dialect.Common
import Formwork.Validation.Remote

/-! What the operands of a rule stand for when the rule is evaluated with the value of a control in
place of the placeholder. The value counts as data exactly if it leads nowhere in the document. -/

namespace Formwork

namespace Clause

variable [Dialect]

mutual
def holdsBy (denote : Json → Json) : Clause → Bool
  | comparison left c right => c.holds (denote left) (denote right)
  | group .all clauses => allHoldBy denote clauses
  | group .any clauses => anyHoldsBy denote clauses
def allHoldBy (denote : Json → Json) : List Clause → Bool
  | [] => true
  | c :: cs => holdsBy denote c && allHoldBy denote cs
def anyHoldsBy (denote : Json → Json) : List Clause → Bool
  | [] => false
  | c :: cs => holdsBy denote c || anyHoldsBy denote cs
end

mutual
theorem holds_fill (value context : Json) :
    ∀ c : Clause, (c.fill value).holds context = c.holdsBy fun o => lookup (Json.fill value o) context
  | comparison left c right => by rw [fill, holds, holdsBy]
  | group .all clauses => by rw [fill, holds, holdsBy, allHold_fillAll]
  | group .any clauses => by rw [fill, holds, holdsBy, anyHolds_fillAll]
theorem allHold_fillAll (value context : Json) :
    ∀ cs : List Clause,
      allHold context (fillAll value cs) = allHoldBy (fun o => lookup (Json.fill value o) context) cs
  | [] => rfl
  | c :: cs => by
    have hc := holds_fill value context c
    have hcs := allHold_fillAll value context cs
    simp only [fillAll, allHold, allHoldBy, hc, hcs]
theorem anyHolds_fillAll (value context : Json) :
    ∀ cs : List Clause,
      anyHolds context (fillAll value cs) = anyHoldsBy (fun o => lookup (Json.fill value o) context) cs
  | [] => rfl
  | c :: cs => by
    have hc := holds_fill value context c
    have hcs := anyHolds_fillAll value context cs
    simp only [fillAll, anyHolds, anyHoldsBy, hc, hcs]
end

end Clause

namespace Expression

def holdsBy [Dialect] (denote : Json → Json) (e : Expression) : Bool := e.toClause.holdsBy denote

theorem holdsWith_eq [Dialect] (value context : Json) (e : Expression) :
    e.holdsWith value context = e.holdsBy fun o => lookup (Json.fill value o) context :=
  Clause.holds_fill value context e.toClause

end Expression

/-- What a written operand stands for if the placeholder stands for `live`: any other text is looked
up, and a literal has the value in place of the placeholders inside it. -/
def meaning [Dialect] (live value context : Json) : Json → Json
  | .string s => if s = placeholder then live else lookup (.string s) context
  | operand => Json.fill value operand

def asData [Dialect] (value context : Json) : Json → Json := meaning value value context

def Resolves [Dialect] (value context : Json) : Prop :=
  ∃ path found, value = .string path ∧ path ≠ "" ∧ context.isContainer = true ∧
    Query.first? (rooted path) context = some found ∧ found ≠ .null ∧ found ≠ value

theorem lookup_fill [Dialect] (value context operand : Json) :
    lookup (Json.fill value operand) context =
      meaning (lookup value context) value context operand := by
  cases operand with
  | string s =>
    by_cases h : s = placeholder
    · simp only [Json.fill, meaning, if_pos h]
    · simp only [Json.fill, meaning, if_neg h]
  | null | bool | int | double | array | object => simp only [Json.fill, meaning, lookup]

theorem rooted_toList (path : String) : ∃ rest, (rooted path).toList = '$' :: rest := by
  unfold rooted
  split
  · next rest h => exact ⟨rest, h⟩
  · exact ⟨path.toList, by simp⟩
  · exact ⟨'.' :: path.toList, by simp⟩

theorem rooted_rooted (path : String) : rooted (rooted path) = rooted path := by
  obtain ⟨rest, h⟩ := rooted_toList path
  simp only [rooted.eq_def (rooted path), h]

theorem rooted_ne {path s : String} (h : s.toList.head? ≠ some '$') : rooted path ≠ s := by
  rintro rfl
  obtain ⟨rest, he⟩ := rooted_toList path
  exact h (by rw [he]; rfl)

theorem lookup_of_not_resolves [Dialect] {value context : Json} (h : ¬ Resolves value context) :
    lookup value context = value := by
  unfold lookup
  split
  · next path =>
    split
    · rfl
    · next hc =>
      have hne : path ≠ "" := fun he => hc (.inl he)
      have hcon : context.isContainer = true := by simpa using fun he => hc (.inr he)
      split
      · rfl
      · next found hnull hf =>
        by_cases hfound : found = .string path
        · exact hfound
        · exact absurd ⟨path, found, rfl, hne, hcon, hf, hnull, hfound⟩ h
      · rfl
  · rfl

theorem lookup_rooted [Dialect] {path : String} {context found : Json} (hcon : context.isContainer = true)
    (hf : Query.first? (rooted path) context = some found) (hnull : found ≠ .null) :
    lookup (.string (rooted path)) context = found := by
  have hroot : rooted (rooted path) = rooted path := rooted_rooted path
  have hne : rooted path ≠ "" := rooted_ne (by decide)
  simp only [lookup, hne, hcon, hroot, hf]
  cases found <;> simp_all

theorem Comparator.isEqual_self (v : Json) : isEqual v v = true := by
  unfold isEqual
  cases number? v with
  | none => exact Json.same_iff.mpr rfl
  | some x => exact Binary64.same_iff.mpr rfl

theorem Comparator.eq_of_isEqual_string {s : String} {v : Json} (h : isEqual (.string s) v = true) :
    v = .string s := by
  have hs : Json.canonical (.string s) = Json.canonical v := Json.same_iff.mp h
  cases v <;> simp_all [Json.canonical]

theorem custom_accepts_eq [Dialect] (name url : String) (e : Expression) (value body : Json) :
    (RemoteValidator.custom name url e).accepts value body =
      e.holdsBy (meaning (lookup value body) value body) := by
  have h : (fun o => lookup (Json.fill value o) body) = meaning (lookup value body) value body :=
    funext (lookup_fill value body)
  exact (e.holdsWith_eq value body).trans (by rw [h])

def equalsWritten (path : String) : Expression :=
  ⟨.all, [.comparison (.string placeholder) .equal (.string path)]⟩

theorem equalsWritten_holdsBy [Dialect] (denote : Json → Json) (path : String) :
    (equalsWritten path).holdsBy denote =
      Comparator.isEqual (denote (.string placeholder)) (denote (.string path)) := by
  simp [equalsWritten, Expression.holdsBy, Expression.toClause, Clause.holdsBy, Clause.allHoldBy,
    Comparator.holds]

theorem equalsWritten_separates [Dialect] {path : String} {body found : Json}
    (hcon : body.isContainer = true) (hpath : path ≠ "")
    (hf : Query.first? (rooted path) body = some found)
    (hnull : found ≠ .null) (hne : found ≠ .string path) :
    (equalsWritten (rooted path)).holdsBy
        (meaning (lookup (.string path) body) (.string path) body) = true ∧
      (equalsWritten (rooted path)).holdsBy (asData (.string path) body) = false := by
  have hl : lookup (.string path) body = found := by
    simp only [lookup, hpath, hcon, hf]
    cases found <;> simp_all
  have hr : meaning found (.string path) body (.string (rooted path)) = found := by
    rw [meaning, if_neg (rooted_ne (by decide)), lookup_rooted hcon hf hnull]
  have hr' : asData (.string path) body (.string (rooted path)) = found := by
    rw [asData, meaning, if_neg (rooted_ne (by decide)), lookup_rooted hcon hf hnull]
  rw [equalsWritten_holdsBy, equalsWritten_holdsBy, hl, hr, hr']
  refine ⟨Comparator.isEqual_self found, ?_⟩
  exact Bool.eq_false_iff.mpr fun h => hne (Comparator.eq_of_isEqual_string h)

/-- A remote rule evaluates its tree with the value looked up like a written text wherever it stands
for the placeholder. All rules treat the value as data exactly if it does not lead elsewhere. -/
theorem custom_accepts_as_data_iff [Dialect] (value body : Json) :
    (∀ name url e, (RemoteValidator.custom name url e).accepts value body =
        e.holdsBy (meaning (lookup value body) value body)) ∧
      ((∀ name url e, (RemoteValidator.custom name url e).accepts value body =
        e.holdsBy (asData value body)) ↔ ¬ Resolves value body) := by
  refine ⟨fun name url e => custom_accepts_eq name url e value body, ?_, ?_⟩
  · rintro hall ⟨path, found, rfl, hpath, hcon, hf, hnull, hne⟩
    obtain ⟨ht, hd⟩ := equalsWritten_separates hcon hpath hf hnull hne
    have h := hall "" "" (equalsWritten (rooted path))
    rw [custom_accepts_eq, ht, hd] at h
    cases h
  · intro hno name url e
    rw [custom_accepts_eq, lookup_of_not_resolves hno]
    rfl

/-- Whoever enters the name of the member that a rule compares with passes the rule. -/
theorem custom_accepts_member_name :
    let rule := equalsWritten "pin"
    let body := Json.object [("pin", .string "0042")]
    (RemoteValidator.custom "pin" "https://codes.test/value" rule).accepts (.string "pin") body
      ≠ rule.holdsBy (asData (.string "pin") body) := by
  decide

end Formwork
