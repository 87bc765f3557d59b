import Formwork.Expression.Codec

/-! The grammar of written expressions, and that reading and writing are inverse to each other on it. -/

namespace Formwork

theorem Connective.exists_token_iff {s : String} : (∃ c : Connective, c.token = s) ↔ s ∈ ["and", "or"] := by
  constructor
  · rintro ⟨c, rfl⟩
    cases c <;> simp [token]
  · intro h
    simp only [List.mem_cons, List.not_mem_nil, or_false] at h
    rcases h with rfl | rfl
    · exact ⟨.all, rfl⟩
    · exact ⟨.any, rfl⟩

theorem Comparator.exists_token_iff {s : String} : (∃ c : Comparator, c.token = s) ↔
    s ∈ ["greater_than", "less_than", "equal", "starts_with", "ends_with", "contains"] := by
  constructor
  · rintro ⟨c, rfl⟩
    cases c <;> simp [token]
  · intro h
    simp only [List.mem_cons, List.not_mem_nil, or_false] at h
    rcases h with rfl | rfl | rfl | rfl | rfl | rfl
    · exact ⟨.greaterThan, rfl⟩
    · exact ⟨.lessThan, rfl⟩
    · exact ⟨.equal, rfl⟩
    · exact ⟨.startsWith, rfl⟩
    · exact ⟨.endsWith, rfl⟩
    · exact ⟨.contains, rfl⟩

namespace Clause

/-- The operands that the grammar allows: what is written in three parts compares, and what is written in
two parts connects. -/
inductive Written : Json → Prop
  | comparison (left right : Json) {token : String}
      (known : token ∈ ["greater_than", "less_than", "equal", "starts_with", "ends_with", "contains"]) :
      Written (.array [left, .string token, right])
  | group {token : String} {operands : List Json} (known : token ∈ ["and", "or"])
      (below : ∀ o ∈ operands, Written o) : Written (.array [.string token, .array operands])

section Writing

variable (location : List Nat)

theorem readConnective_token (c : Connective) :
    readConnective location (.string c.token) = .ok c := by
  simp [readConnective, Json.asString?, Connective.ofToken?_token]

theorem readComparator_token (c : Comparator) :
    readComparator location (.string c.token) = .ok c := by
  simp [readComparator, Json.asString?, Comparator.ofToken?_token]

end Writing

mutual
theorem read_toJson (location : List Nat) : ∀ c : Clause, read location c.toJson = .ok c
  | comparison left c right => by
    simp only [toJson, read, readComparator_token, bind, Except.bind]
  | group connective clauses => by
    simp only [toJson, read, readConnective_token, readOperands, readAll_toJsons location 0 clauses, bind,
      Except.bind]
theorem readAll_toJsons (location : List Nat) (index : Nat) :
    ∀ clauses : List Clause, readAll location index (toJsons clauses) = .ok clauses
  | [] => by simp only [toJsons, readAll]
  | c :: cs => by
    simp only [toJsons, readAll, read_toJson (location ++ [index]) c,
      readAll_toJsons location (index + 1) cs, bind, Except.bind]
end

section Reading

variable {location : List Nat} {token : Json}

theorem readConnective_eq_ok {c : Connective} (h : readConnective location token = .ok c) :
    token = .string c.token := by
  unfold readConnective at h
  split at h
  · next found =>
    cases h
    obtain ⟨s, hs, hc⟩ := Option.bind_eq_some_iff.mp found
    rw [Connective.token_of_ofToken? hc]
    cases token <;> cases hs
    rfl
  · cases h

theorem readComparator_eq_ok {c : Comparator} (h : readComparator location token = .ok c) :
    token = .string c.token := by
  unfold readComparator at h
  split at h
  · next found =>
    cases h
    obtain ⟨s, hs, hc⟩ := Option.bind_eq_some_iff.mp found
    rw [Comparator.token_of_ofToken? hc]
    cases token <;> cases hs
    rfl
  · cases h

end Reading

mutual
theorem toJson_of_read (location : List Nat) :
    ∀ (w : Json) (c : Clause), read location w = .ok c → c.toJson = w
  | .array [token, operands], c, h => by
    rw [read] at h
    obtain ⟨connective, hconnective, h⟩ := exists_ok_of_bind h
    obtain ⟨clauses, hclauses, h⟩ := exists_ok_of_bind h
    cases h
    rw [toJson, readConnective_eq_ok hconnective, toJsons_of_readOperands location operands clauses hclauses]
  | .array [left, token, right], c, h => by
    rw [read] at h
    obtain ⟨comparator, hcomparator, h⟩ := exists_ok_of_bind h
    cases h
    rw [toJson, readComparator_eq_ok hcomparator]
  | .array [], _, h => by cases h
  | .array [_], _, h => by cases h
  | .array (_ :: _ :: _ :: _ :: _), _, h => by cases h
  | .null, _, h | .bool _, _, h | .int _, _, h | .double _, _, h | .string _, _, h | .object _, _, h => by
    cases h
theorem toJsons_of_readOperands (location : List Nat) :
    ∀ (w : Json) (cs : List Clause), readOperands location w = .ok cs → .array (toJsons cs) = w
  | .array items, cs, h => by
    rw [readOperands] at h
    rw [toJsons_of_readAll location 0 items cs h]
  | .null, _, h | .bool _, _, h | .int _, _, h | .double _, _, h | .string _, _, h | .object _, _, h => by
    cases h
theorem toJsons_of_readAll (location : List Nat) (index : Nat) :
    ∀ (items : List Json) (cs : List Clause), readAll location index items = .ok cs → toJsons cs = items
  | [], cs, h => by
    rw [readAll] at h
    cases h
    rfl
  | x :: xs, cs, h => by
    rw [readAll] at h
    obtain ⟨c, hc, h⟩ := exists_ok_of_bind h
    obtain ⟨rest, hrest, h⟩ := exists_ok_of_bind h
    cases h
    rw [toJsons, toJson_of_read _ x c hc, toJsons_of_readAll location (index + 1) xs rest hrest]
end

mutual
theorem written_toJson : ∀ c : Clause, Written c.toJson
  | comparison left c right => .comparison left right (Comparator.exists_token_iff.mp ⟨c, rfl⟩)
  | group connective clauses =>
    .group (Connective.exists_token_iff.mp ⟨connective, rfl⟩) (written_toJsons clauses)
theorem written_toJsons : ∀ clauses : List Clause, ∀ o ∈ toJsons clauses, Written o
  | [], _, h => nomatch h
  | c :: cs, o, h => (List.mem_cons.mp h).elim (fun he => he ▸ written_toJson c) (written_toJsons cs o)
end

theorem exists_toJsons {operands : List Json} (h : ∀ o ∈ operands, ∃ c : Clause, c.toJson = o) :
    ∃ cs, toJsons cs = operands := by
  induction operands with
  | nil => exact ⟨[], rfl⟩
  | cons o os ih =>
    obtain ⟨c, rfl⟩ := h o List.mem_cons_self
    obtain ⟨cs, rfl⟩ := ih fun o' ho' => h o' (List.mem_cons_of_mem _ ho')
    exact ⟨c :: cs, rfl⟩

theorem Written.exists_toJson {w : Json} (h : Written w) : ∃ c : Clause, c.toJson = w := by
  induction h with
  | comparison left right known =>
    obtain ⟨c, rfl⟩ := Comparator.exists_token_iff.mpr known
    exact ⟨.comparison left c right, rfl⟩
  | group known below ih =>
    obtain ⟨connective, rfl⟩ := Connective.exists_token_iff.mpr known
    obtain ⟨clauses, rfl⟩ := exists_toJsons ih
    exact ⟨.group connective clauses, rfl⟩

end Clause

namespace Expression

def Written (w : Json) : Prop :=
  ∃ token operands, w = .array [.string token, .array operands] ∧ token ∈ ["and", "or"] ∧
    ∀ o ∈ operands, Clause.Written o

theorem ofJson_toJson (e : Expression) : ofJson e.toJson = .ok e := by
  obtain ⟨connective, clauses⟩ := e
  simp only [toJson, toClause, Clause.toJson, ofJson, Clause.readConnective_token, Clause.readOperands,
    Clause.readAll_toJsons [] 0 clauses, bind, Except.bind]

theorem toJson_of_ofJson {w : Json} {e : Expression} (h : ofJson w = .ok e) : e.toJson = w := by
  unfold ofJson at h
  split at h
  · next token operands =>
    obtain ⟨connective, hconnective, h⟩ := exists_ok_of_bind h
    obtain ⟨clauses, hclauses, h⟩ := exists_ok_of_bind h
    cases h
    rw [toJson, toClause, Clause.toJson, Clause.readConnective_eq_ok hconnective,
      Clause.toJsons_of_readOperands [] operands clauses hclauses]
  · cases h

theorem written_toJson (e : Expression) : Written e.toJson :=
  ⟨_, _, rfl, Connective.exists_token_iff.mp ⟨e.connective, rfl⟩, Clause.written_toJsons e.clauses⟩

theorem Written.exists_toJson {w : Json} (h : Written w) : ∃ e : Expression, e.toJson = w := by
  obtain ⟨token, operands, rfl, known, below⟩ := h
  obtain ⟨connective, rfl⟩ := Connective.exists_token_iff.mpr known
  obtain ⟨clauses, rfl⟩ := Clause.exists_toJsons fun o ho => (below o ho).exists_toJson
  exact ⟨⟨connective, clauses⟩, rfl⟩

/-- Reading and writing are inverse to each other between the expressions and the written expressions. -/
theorem ofJson_inverse_toJson :
    (∀ e : Expression, ofJson e.toJson = .ok e) ∧
    (∀ (w : Json) (e : Expression), ofJson w = .ok e → e.toJson = w) ∧
    ∀ w : Json, (∃ e, ofJson w = .ok e) ↔ Written w := by
  refine ⟨ofJson_toJson, fun w e => toJson_of_ofJson, fun w => ⟨?_, ?_⟩⟩
  · rintro ⟨e, h⟩
    exact toJson_of_ofJson h ▸ e.written_toJson
  · intro h
    obtain ⟨e, rfl⟩ := h.exists_toJson
    exact ⟨e, e.ofJson_toJson⟩

example :
    let left := Json.array [.string "or", .array []]
    ofJson (.array [.string "and", .array [.array [left, .string "equal", .null]]]) =
      .ok ⟨.all, [.comparison left .equal .null]⟩ := rfl

end Expression

end Formwork
