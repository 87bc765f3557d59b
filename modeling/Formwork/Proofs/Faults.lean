import Mathlib.Data.List.Basic
import Formwork.Proofs.WireForm

/-! Why a document is no expression: reading fails at the first node that is not built as the grammar has it,
and says where that is and what is wrong with it. -/

namespace Formwork

theorem bind_eq_error_iff {E A B : Type} {x : Except E A} {f : A → Except E B} {e : E} :
    x >>= f = .error e ↔ x = .error e ∨ ∃ a, x = .ok a ∧ f a = .error e := by
  cases x with
  | error e' => simp [bind, Except.bind]
  | ok a => simp [bind, Except.bind]

theorem asString?_bind_eq_none_iff {A : Type} {name : A → String} {ofName? : String → Option A}
    {known : List String} (hread : ∀ a, ofName? (name a) = some a)
    (hname : ∀ {s a}, ofName? s = some a → name a = s) (hknown : ∀ {s}, (∃ a, name a = s) ↔ s ∈ known)
    {token : Json} : token.asString?.bind ofName? = none ↔ ∀ s ∈ known, token ≠ .string s := by
  constructor
  · rintro h s hs rfl
    obtain ⟨a, rfl⟩ := hknown.mpr hs
    cases (hread a).symm.trans h
  · intro h
    cases hb : token.asString?.bind ofName? with
    | none => rfl
    | some a =>
      obtain ⟨s, hs, ha⟩ := Option.bind_eq_some_iff.mp hb
      have htoken : token = .string s := by
        cases token <;> cases hs
        rfl
      exact absurd htoken (h s (hknown.mp ⟨a, hname ha⟩))

namespace Clause

/-- What is wrong with an operand by itself, whatever may be wrong with its own operands. -/
inductive Malformed : Json → ExpressionError.Cause → Prop
  | operator {token operands : Json} (unknown : ∀ s ∈ ["and", "or"], token ≠ .string s) :
      Malformed (.array [token, operands]) (.unknownOperator token)
  | operands {token : String} {operands : Json} (known : token ∈ ["and", "or"])
      (shape : ∀ items, operands ≠ .array items) :
      Malformed (.array [.string token, operands]) .operandsNotArray
  | comparator {left token right : Json}
      (unknown : ∀ s ∈ ["greater_than", "less_than", "equal", "starts_with", "ends_with", "contains"],
        token ≠ .string s) :
      Malformed (.array [left, token, right]) (.unknownComparator token)
  | arity {items : List Json} (two : items.length ≠ 2) (three : items.length ≠ 3) :
      Malformed (.array items) (.operandArity items.length)
  | shape {w : Json} (shape : ∀ items, w ≠ .array items) : Malformed w (.operandArity 0)

def Readable (w : Json) : Prop := ∃ c, ∀ location, read location w = .ok c

/-- The indices lead from an operand through connectives with arrays of operands to one that is malformed, and
all operands that come before, at every connective on the way, can be read. -/
inductive FirstFault : Json → List Nat → ExpressionError.Cause → Prop
  | here {w : Json} {cause : ExpressionError.Cause} (malformed : Malformed w cause) : FirstFault w [] cause
  | inside {token : String} {operands : List Json} {i : Nat} {o : Json} {path : List Nat}
      {cause : ExpressionError.Cause} (known : token ∈ ["and", "or"]) (found : operands[i]? = some o)
      (before : ∀ x ∈ operands.take i, Readable x) (fault : FirstFault o path cause) :
      FirstFault (.array [.string token, .array operands]) (i :: path) cause

section Reading

variable {location : List Nat} {token operands w : Json} {e : ExpressionError}

theorem readConnective_eq_error_iff : readConnective location token = .error e ↔
    e = ⟨location, .unknownOperator token⟩ ∧ ∀ s ∈ ["and", "or"], token ≠ .string s := by
  rw [← asString?_bind_eq_none_iff Connective.ofToken?_token Connective.token_of_ofToken?
    Connective.exists_token_iff]
  unfold readConnective
  cases token.asString?.bind Connective.ofToken? <;> simp [eq_comm]

theorem readComparator_eq_error_iff : readComparator location token = .error e ↔
    e = ⟨location, .unknownComparator token⟩ ∧
      ∀ s ∈ ["greater_than", "less_than", "equal", "starts_with", "ends_with", "contains"],
        token ≠ .string s := by
  rw [← asString?_bind_eq_none_iff Comparator.ofToken?_token Comparator.token_of_ofToken?
    Comparator.exists_token_iff]
  unfold readComparator
  cases token.asString?.bind Comparator.ofToken? <;> simp [eq_comm]

theorem readable_of_read {c : Clause} (h : read location w = .ok c) : Readable w :=
  ⟨c, fun location' => toJson_of_read location w c h ▸ read_toJson location' c⟩

theorem readAll_eq_error_iff {items : List Json} {index : Nat} :
    readAll location index items = .error e ↔
      ∃ i x, items[i]? = some x ∧ (∀ y ∈ items.take i, Readable y) ∧
        read (location ++ [index + i]) x = .error e := by
  induction items generalizing index with
  | nil => simp [readAll]
  | cons x xs ih =>
    constructor
    · intro h
      rw [readAll, bind_eq_error_iff] at h
      obtain hx | ⟨c, hc, h⟩ := h
      · exact ⟨0, x, rfl, nofun, hx⟩
      · rw [bind_eq_error_iff] at h
        obtain h | ⟨cs, -, h⟩ := h
        · obtain ⟨i, y, hy, hbefore, hread⟩ := ih.mp h
          refine ⟨i + 1, y, hy, ?_, ?_⟩
          · rw [List.take_succ_cons, List.forall_mem_cons]
            exact ⟨readable_of_read hc, hbefore⟩
          · rwa [Nat.add_assoc, Nat.add_comm 1 i] at hread
        · cases h
    · rintro ⟨i, y, hy, hbefore, hread⟩
      rw [readAll, bind_eq_error_iff]
      cases i with
      | zero =>
        cases hy
        exact .inl hread
      | succ i =>
        rw [List.take_succ_cons, List.forall_mem_cons] at hbefore
        obtain ⟨⟨c, hc⟩, hbefore⟩ := hbefore
        have hxs : readAll location (index + 1) xs = .error e :=
          ih.mpr ⟨i, y, hy, hbefore, by rwa [Nat.add_assoc, Nat.add_comm 1 i]⟩
        exact .inr ⟨c, hc _, bind_eq_error_iff.mpr (.inl hxs)⟩

/-- An operand that is not read is malformed itself, or it is a connective whose first bad operand is not read. -/
theorem read_eq_error_cases (h : read location w = .error e) :
    (e.location = location ∧ Malformed w e.cause) ∨
      ∃ token operands i o, w = .array [.string token, .array operands] ∧ token ∈ ["and", "or"] ∧
        operands[i]? = some o ∧ (∀ x ∈ operands.take i, Readable x) ∧
        read (location ++ [i]) o = .error e := by
  unfold read at h
  split at h
  · next token operands =>
    rw [bind_eq_error_iff] at h
    obtain h | ⟨c, hc, h⟩ := h
    · obtain ⟨rfl, unknown⟩ := readConnective_eq_error_iff.mp h
      exact .inl ⟨rfl, .operator unknown⟩
    · have htoken := readConnective_eq_ok hc
      have hknown : c.token ∈ ["and", "or"] := Connective.exists_token_iff.mp ⟨c, rfl⟩
      rw [bind_eq_error_iff] at h
      obtain h | ⟨cs, -, h⟩ := h
      · unfold readOperands at h
        split at h
        · next items =>
          obtain ⟨i, o, hfound, hbefore, hread⟩ := readAll_eq_error_iff.mp h
          rw [Nat.zero_add] at hread
          exact .inr ⟨c.token, items, i, o, by rw [htoken], hknown, hfound, hbefore, hread⟩
        · next hshape =>
          cases h
          exact .inl ⟨rfl, htoken ▸ .operands hknown hshape⟩
      · cases h
  · next left token right =>
    rw [bind_eq_error_iff] at h
    obtain h | ⟨c, -, h⟩ := h
    · obtain ⟨rfl, unknown⟩ := readComparator_eq_error_iff.mp h
      exact .inl ⟨rfl, .comparator unknown⟩
    · cases h
  · next items htwo hthree =>
    cases h
    refine .inl ⟨rfl, .arity (fun hlength => ?_) fun hlength => ?_⟩
    · obtain ⟨a, b, rfl⟩ := List.length_eq_two.mp hlength
      exact htwo a b rfl
    · obtain ⟨a, b, c, rfl⟩ := List.length_eq_three.mp hlength
      exact hthree a b c rfl
  · next hshape =>
    cases h
    exact .inl ⟨rfl, .shape hshape⟩

theorem Malformed.read_eq_error {cause : ExpressionError.Cause} (h : Malformed w cause) :
    read location w = .error ⟨location, cause⟩ := by
  cases h with
  | operator unknown =>
    rw [read, readConnective_eq_error_iff.mpr ⟨rfl, unknown⟩]
    rfl
  | @operands token operands known shape =>
    obtain ⟨c, rfl⟩ := Connective.exists_token_iff.mpr known
    rw [read, readConnective_token]
    cases operands with
    | array items => exact absurd rfl (shape items)
    | _ => rfl
  | comparator unknown =>
    rw [read, readComparator_eq_error_iff.mpr ⟨rfl, unknown⟩]
    rfl
  | @arity items two three =>
    match items with
    | [] | [_] | _ :: _ :: _ :: _ :: _ => rfl
    | [_, _] => exact absurd rfl two
    | [_, _, _] => exact absurd rfl three
  | shape shape =>
    cases w with
    | array items => exact absurd rfl (shape items)
    | _ => rfl

theorem FirstFault.read_eq_error {path : List Nat} {cause : ExpressionError.Cause}
    (h : FirstFault w path cause) : read location w = .error ⟨location ++ path, cause⟩ := by
  induction h generalizing location with
  | here malformed =>
    rw [List.append_nil]
    exact malformed.read_eq_error
  | @inside token operands i o path cause known found before fault ih =>
    obtain ⟨c, rfl⟩ := Connective.exists_token_iff.mpr known
    have hoperands : readAll location 0 operands = .error ⟨location ++ i :: path, cause⟩ := by
      refine readAll_eq_error_iff.mpr ⟨i, o, found, before, ?_⟩
      rw [ih, Nat.zero_add, List.append_assoc, List.singleton_append]
    rw [read, readConnective_token, readOperands, hoperands]
    rfl

end Reading

/-- Induction on a document, in which an operand of a connective comes before the connective. -/
theorem exists_firstFault {location : List Nat} {w : Json} {e : ExpressionError}
    (h : read location w = .error e) : ∃ path, e.location = location ++ path ∧ FirstFault w path e.cause := by
  obtain ⟨hlocation, hmalformed⟩ | ⟨token, operands, i, o, hw, hknown, hfound, hbefore, hread⟩ :=
    read_eq_error_cases h
  · exact ⟨[], by rw [hlocation, List.append_nil], .here hmalformed⟩
  · have hlt : sizeOf o < sizeOf w := by
      have hmem : sizeOf o < sizeOf operands := List.sizeOf_lt_of_mem (List.mem_of_getElem? hfound)
      simp only [hw, Json.array.sizeOf_spec, List.cons.sizeOf_spec]
      omega
    obtain ⟨path, hlocation, hfault⟩ := exists_firstFault hread
    refine ⟨i :: path, ?_, hw ▸ .inside hknown hfound hbefore hfault⟩
    rw [hlocation, List.append_assoc, List.singleton_append]
termination_by sizeOf w

end Clause

namespace Expression

open ExpressionError (place)

/-- What is no pair is no expression; in a pair, the first fault is that of an operand. -/
inductive FirstFault : Json → List Nat → ExpressionError.Cause → Prop
  | root {w : Json} (shape : ∀ token operands, w ≠ .array [token, operands]) : FirstFault w [] .notLogical
  | pair {token operands : Json} {path : List Nat} {cause : ExpressionError.Cause}
      (fault : Clause.FirstFault (.array [token, operands]) path cause) :
      FirstFault (.array [token, operands]) path cause

theorem ofJson_pair_eq_error_iff {token operands : Json} {e : ExpressionError} :
    ofJson (.array [token, operands]) = .error e ↔ Clause.read [] (.array [token, operands]) = .error e := by
  rw [ofJson, Clause.read]
  cases Clause.readConnective [] token with
  | error e' => simp [bind, Except.bind]
  | ok c => cases Clause.readOperands [] operands <;> simp [bind, Except.bind]

theorem ofJson_eq_error_iff {w : Json} {e : ExpressionError} :
    ofJson w = .error e ↔ FirstFault w e.location e.cause := by
  constructor
  · intro h
    by_cases hpair : ∃ token operands, w = .array [token, operands]
    · obtain ⟨token, operands, rfl⟩ := hpair
      obtain ⟨path, hlocation, hfault⟩ := Clause.exists_firstFault (ofJson_pair_eq_error_iff.mp h)
      rw [hlocation, List.nil_append]
      exact .pair hfault
    · have hshape : ∀ token operands, w ≠ .array [token, operands] :=
        fun token operands he => hpair ⟨token, operands, he⟩
      unfold ofJson at h
      split at h
      · exact absurd rfl (hshape _ _)
      · cases h
        exact .root hshape
  · obtain ⟨location, cause⟩ := e
    rintro (⟨shape⟩ | ⟨fault⟩)
    · unfold ofJson
      split
      · exact absurd rfl (shape _ _)
      · rfl
    · exact ofJson_pair_eq_error_iff.mpr fault.read_eq_error

theorem intercalate_append_cons (separator a b : String) (texts : List String) :
    separator.intercalate ((a ++ b) :: texts) = a ++ separator.intercalate (b :: texts) := by
  cases texts with
  | nil => rw [String.intercalate_singleton, String.intercalate_singleton]
  | cons t texts =>
    rw [String.intercalate_cons_cons, String.intercalate_cons_cons]
    simp only [String.append_assoc]

theorem foldl_place (start : String) (location : List Nat) :
    location.foldl (fun text i => text ++ "." ++ Text.natText i) start =
      ".".intercalate (start :: location.map Text.natText) := by
  induction location generalizing start with
  | nil => exact String.intercalate_singleton.symm
  | cons i location ih =>
    rw [List.foldl_cons, ih, List.map_cons, intercalate_append_cons, String.intercalate_cons_cons]

/-- Reading fails exactly on what is not written as an expression, and then at the first fault, whose place is
told by the indices that lead there from the root. -/
theorem ofJson_fails_at_first_fault (w : Json) :
    ((∃ e, ofJson w = .error e) ↔ ¬ Written w) ∧
    (∀ e, ofJson w = .error e ↔ FirstFault w e.location e.cause) ∧
    ∀ location, place location = ".".intercalate ("root" :: location.map Text.natText) := by
  refine ⟨⟨?_, fun h => ?_⟩, fun e => ofJson_eq_error_iff, foldl_place "root"⟩
  · rintro ⟨e, he⟩ hwritten
    obtain ⟨x, rfl⟩ := hwritten.exists_toJson
    cases he.symm.trans x.ofJson_toJson
  · cases hread : ofJson w with
    | error e => exact ⟨e, rfl⟩
    | ok x => exact absurd (toJson_of_ofJson hread ▸ x.written_toJson) h

example :
    let deep := Json.array [.string "or", .array [.array [.null, .string "like", .null]]]
    ofJson (.array [.string "and", .array [deep, .array []]]) =
      .error ⟨[0, 0], .unknownComparator (.string "like")⟩ := rfl

end Expression

end Formwork
