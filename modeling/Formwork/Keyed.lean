/-! Lists of keyed entries, kept either in the order of first arrival or in ascending order of keys. -/

namespace Formwork

abbrev Keyed (α : Type) := List (String × α)

namespace Keyed

variable {α β : Type}

def keys (m : Keyed α) : List String := m.map (·.1)

def values (m : Keyed α) : List α := m.map (·.2)

def get? (key : String) : Keyed α → Option α
  | [] => none
  | (k, v) :: rest => if k = key then some v else get? key rest

def contains (key : String) (m : Keyed α) : Bool := (m.get? key).isSome

def defaulted (read : α → Option β) (default : β) (key : String) (m : Keyed α) : Option β :=
  match m.get? key with
  | some v => read v
  | none => some default

/-- Replaces the value of a key in its place, or adds the entry at the end. -/
def put (key : String) (value : α) : Keyed α → Keyed α
  | [] => [(key, value)]
  | (k, v) :: rest => if k = key then (k, value) :: rest else (k, v) :: put key value rest

/-- Replaces the value of a key, or adds the entry before the first greater key. -/
def insert (key : String) (value : α) : Keyed α → Keyed α
  | [] => [(key, value)]
  | (k, v) :: rest =>
    if k = key then (key, value) :: rest
    else if key < k then (key, value) :: (k, v) :: rest
    else (k, v) :: insert key value rest

def merge (m : Keyed α) (entries : Keyed α) : Keyed α :=
  entries.foldl (fun acc e => acc.insert e.1 e.2) m

def sorted (m : Keyed α) : Keyed α := merge [] m

def Ascending (m : Keyed α) : Prop := m.Pairwise fun a b => a.1 < b.1

@[simp] theorem get?_nil (key : String) : get? key ([] : Keyed α) = none := rfl

theorem get?_cons (key k : String) (v : α) (m : Keyed α) :
    get? key ((k, v) :: m) = if k = key then some v else get? key m := rfl

theorem get?_append (key : String) (m m' : Keyed α) :
    get? key (m ++ m') = (get? key m).or (get? key m') := by
  induction m with
  | nil => rfl
  | cons e m ih =>
    rw [List.cons_append, get?_cons, get?_cons, ih]
    split <;> rfl

theorem get?_map (f : α → β) (m : Keyed α) (key : String) :
    get? key (m.map fun e => (e.1, f e.2)) = (m.get? key).map f := by
  induction m with
  | nil => rfl
  | cons e m ih =>
    obtain ⟨k, v⟩ := e
    rw [List.map_cons, get?_cons, get?_cons, ih]
    split <;> rfl

theorem get?_eq_none_iff {key : String} {m : Keyed α} : m.get? key = none ↔ key ∉ m.keys := by
  induction m with
  | nil => simp [keys]
  | cons e m ih =>
    obtain ⟨k, v⟩ := e
    by_cases hk : k = key
    · simp [get?_cons, keys, hk]
    · rw [get?_cons, if_neg hk, ih]
      simp [keys, Ne.symm hk]

theorem get?_put_self (key : String) (value : α) (m : Keyed α) :
    (m.put key value).get? key = some value := by
  induction m with
  | nil => simp [put, get?]
  | cons e m ih =>
    obtain ⟨k, v⟩ := e
    by_cases h : k = key <;> simp [put, get?, h, ih]

theorem get?_put_of_ne {key other : String} (h : other ≠ key) (value : α) (m : Keyed α) :
    (m.put key value).get? other = m.get? other := by
  induction m with
  | nil => simp [put, get?, h.symm]
  | cons e m ih =>
    obtain ⟨k, v⟩ := e
    by_cases hk : k = key
    · subst hk
      simp [put, get?, h.symm]
    · simp only [put, hk, if_false, get?_cons, ih]

theorem get?_insert_self (key : String) (value : α) (m : Keyed α) :
    (m.insert key value).get? key = some value := by
  induction m with
  | nil => simp [insert, get?]
  | cons e m ih =>
    obtain ⟨k, v⟩ := e
    by_cases h : k = key
    · simp [insert, get?, h]
    · by_cases hl : key < k <;> simp [insert, get?, h, hl, ih]

theorem get?_insert_of_ne {key other : String} (h : other ≠ key) (value : α) (m : Keyed α) :
    (m.insert key value).get? other = m.get? other := by
  induction m with
  | nil => simp [insert, get?, h.symm]
  | cons e m ih =>
    obtain ⟨k, v⟩ := e
    by_cases hk : k = key
    · subst hk
      simp [insert, get?, h.symm]
    · by_cases hl : key < k
      · simp [insert, get?, hk, hl, h.symm]
      · simp only [insert, hk, hl, if_false, get?_cons, ih]

theorem insert_ne_nil (key : String) (value : α) (m : Keyed α) : m.insert key value ≠ [] := by
  cases m with
  | nil => simp [insert]
  | cons e m =>
    obtain ⟨k, v⟩ := e
    by_cases hk : k = key
    · simp [insert, hk]
    · by_cases hl : key < k <;> simp [insert, hk, hl]

theorem mem_of_get? {key : String} {v : α} {m : Keyed α} (h : m.get? key = some v) :
    (key, v) ∈ m := by
  induction m with
  | nil => cases h
  | cons e m ih =>
    obtain ⟨k, w⟩ := e
    rw [get?_cons] at h
    by_cases hk : k = key
    · rw [if_pos hk] at h
      cases h
      rw [hk]
      exact List.mem_cons_self
    · rw [if_neg hk] at h
      exact List.mem_cons_of_mem _ (ih h)

theorem mem_of_mem_insert {key : String} {v : α} {m : Keyed α} {e : String × α}
    (h : e ∈ m.insert key v) : e = (key, v) ∨ e ∈ m := by
  induction m with
  | nil => exact .inl (List.mem_singleton.mp h)
  | cons e' m ih =>
    obtain ⟨k, w⟩ := e'
    rw [insert] at h
    split at h
    · rcases List.mem_cons.mp h with he | hm
      · exact .inl he
      · exact .inr (List.mem_cons_of_mem _ hm)
    · split at h
      · exact List.mem_cons.mp h
      · rcases List.mem_cons.mp h with he | hm
        · exact .inr (he ▸ List.mem_cons_self)
        · exact (ih hm).imp id (List.mem_cons_of_mem _)

theorem mem_keys_insert {key other : String} {value : α} {m : Keyed α} :
    other ∈ (m.insert key value).keys ↔ other = key ∨ other ∈ m.keys := by
  induction m with
  | nil => simp [insert, keys]
  | cons e m ih =>
    obtain ⟨k, v⟩ := e
    by_cases hk : k = key
    · subst hk
      simp [insert, keys]
    · by_cases hl : key < k
      · simp [insert, keys, hk, hl]
      · simp only [keys, List.map_cons] at ih ⊢
        simp only [insert, hk, hl, if_false, List.map_cons, List.mem_cons, ih]
        constructor
        · rintro (h | h | h) <;> simp [h]
        · rintro (h | h | h) <;> simp [h]

theorem Ascending.get?_of_mem {m : Keyed α} (h : m.Ascending) {key : String} {v : α}
    (hm : (key, v) ∈ m) : m.get? key = some v := by
  induction m with
  | nil => cases hm
  | cons e m ih =>
    obtain ⟨k, w⟩ := e
    have hc := List.pairwise_cons.mp h
    rw [get?_cons]
    rcases List.mem_cons.mp hm with he | hm
    · cases he
      exact if_pos rfl
    · have hlt : k < key := hc.1 (key, v) hm
      have hne : k ≠ key := fun he => String.lt_irrefl key (he ▸ hlt)
      rw [if_neg hne, ih hc.2 hm]

theorem Ascending.insert {m : Keyed α} (h : m.Ascending) (key : String) (value : α) :
    (m.insert key value).Ascending := by
  induction m with
  | nil => simp [Keyed.insert, Ascending]
  | cons e m ih =>
    obtain ⟨k, v⟩ := e
    have hc := List.pairwise_cons.mp h
    by_cases hk : k = key
    · subst hk
      simp only [Keyed.insert, if_true]
      exact List.pairwise_cons.mpr ⟨hc.1, hc.2⟩
    · by_cases hl : key < k
      · simp only [Keyed.insert, hk, hl, if_true, if_false]
        refine List.pairwise_cons.mpr ⟨fun e he => ?_, h⟩
        rcases List.mem_cons.mp he with rfl | he
        · exact hl
        · exact String.lt_trans hl (hc.1 e he)
      · have hkey : k < key := by
          rcases Decidable.em (k < key) with h | h
          · exact h
          · exact absurd (String.le_antisymm (String.not_lt.mp hl) (String.not_lt.mp h)) hk
        simp only [Keyed.insert, hk, hl, if_false]
        refine List.pairwise_cons.mpr ⟨fun e he => ?_, ih hc.2⟩
        have hmem : e.1 ∈ (Keyed.insert key value m).keys := List.mem_map_of_mem he
        rcases mem_keys_insert.mp hmem with h | h
        · rw [h]
          exact hkey
        · obtain ⟨e', he', heq⟩ := List.mem_map.mp h
          rw [← heq]
          exact hc.1 e' he'

theorem Ascending.merge {m : Keyed α} (h : m.Ascending) (entries : Keyed α) :
    (m.merge entries).Ascending := by
  induction entries generalizing m with
  | nil => exact h
  | cons e entries ih => exact ih (h.insert e.1 e.2)

theorem sorted_ascending (m : Keyed α) : m.sorted.Ascending :=
  Ascending.merge List.Pairwise.nil m

theorem insert_perm {key : String} {m : Keyed α} (h : key ∉ m.keys) (value : α) :
    (m.insert key value).Perm ((key, value) :: m) := by
  induction m with
  | nil => exact .refl _
  | cons e m ih =>
    obtain ⟨k, v⟩ := e
    have hne : k ≠ key := fun he => h (he ▸ List.mem_cons_self)
    have hm : key ∉ keys m := fun hm => h (List.mem_cons_of_mem k hm)
    rw [insert, if_neg hne]
    split
    · exact .refl _
    · exact ((ih hm).cons (k, v)).trans (.swap _ _ m)

theorem merge_perm {m entries : Keyed α} (h : (m.keys ++ entries.keys).Nodup) :
    (m.merge entries).Perm (m ++ entries) := by
  induction entries generalizing m with
  | nil => exact (List.append_nil m).symm ▸ .refl _
  | cons e entries ih =>
    obtain ⟨key, value⟩ := e
    obtain ⟨hfree, hrest⟩ := List.nodup_cons.mp ((List.perm_middle.nodup_iff).mp h)
    have hm : key ∉ m.keys := fun hm => hfree (List.mem_append_left _ hm)
    have hinsert := insert_perm hm value
    have hnodup : ((m.insert key value).keys ++ keys entries).Nodup :=
      ((hinsert.map _).append_right _).nodup_iff.mpr (List.nodup_cons.mpr ⟨hfree, hrest⟩)
    exact (ih hnodup).trans ((hinsert.append_right entries).trans List.perm_middle.symm)

theorem sorted_perm {m : Keyed α} (h : m.keys.Nodup) : m.sorted.Perm m := merge_perm h

theorem get?_of_perm {m m' : Keyed α} (hperm : m.Perm m') (h : m.keys.Nodup) (key : String) :
    m.get? key = m'.get? key := by
  induction hperm with
  | nil => rfl
  | cons e _ ih => rw [get?_cons, get?_cons, ih (List.nodup_cons.mp h).2]
  | swap e e' m =>
    obtain ⟨k, v⟩ := e
    obtain ⟨k', v'⟩ := e'
    have hne : k' ≠ k := fun he => (List.nodup_cons.mp h).1 (he ▸ List.mem_cons_self)
    rw [get?_cons, get?_cons, get?_cons, get?_cons]
    by_cases hk : k = key
    · rw [if_neg (hk ▸ hne), if_pos hk, if_pos hk]
    · rw [if_neg hk, if_neg hk]
  | trans h₁ _ ih₁ ih₂ => exact (ih₁ h).trans (ih₂ ((h₁.map _).nodup_iff.mp h))

theorem sorted_eq_of_perm {m m' : Keyed α} (hperm : m.Perm m') (h : m.keys.Nodup) :
    m.sorted = m'.sorted := by
  have h' : m'.keys.Nodup := (hperm.map _).nodup_iff.mp h
  have hsorted : m.sorted.Perm m'.sorted := (sorted_perm h).trans (hperm.trans (sorted_perm h').symm)
  refine hsorted.eq_of_pairwise (fun a b _ _ hab hba => ?_) (sorted_ascending m) (sorted_ascending m')
  exact absurd (String.lt_trans hab hba) (String.lt_irrefl _)

end Keyed

end Formwork
