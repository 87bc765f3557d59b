import Formwork.Options
import Formwork.Proofs.FullValidation
import Formwork.Proofs.Traversal

/-! Options that are fetched: one for each entry of the list that the source answers with, sorted by the text that
is shown, with options of the same text in the order of their entries. -/

namespace Formwork

def SortOrder.Allows (o : SortOrder) (a b : SelectOption) : Prop :=
  match o with
  | .ascending => a.display ≤ b.display
  | .descending => b.display ≤ a.display

instance (o : SortOrder) (a b : SelectOption) : Decidable (o.Allows a b) := by
  unfold SortOrder.Allows
  cases o <;> infer_instance

namespace SortOrder

variable {o : SortOrder} {a b c : SelectOption}

theorem Allows.trans (hab : o.Allows a b) (hbc : o.Allows b c) : o.Allows a c := by
  cases o with
  | ascending => exact String.le_trans hab hbc
  | descending => exact String.le_trans hbc hab

theorem allows_total (o : SortOrder) (a b : SelectOption) : o.Allows a b ∨ o.Allows b a := by
  cases o with
  | ascending => exact String.le_total a.display b.display
  | descending => exact String.le_total b.display a.display

theorem Allows.display_eq (hab : o.Allows a b) (hba : o.Allows b a) : a.display = b.display := by
  cases o with
  | ascending => exact String.le_antisymm hab hba
  | descending => exact String.le_antisymm hba hab

theorem allows_of_display_eq (h : a.display = b.display) : o.Allows a b := by
  unfold SortOrder.Allows
  rw [h]
  cases o <;> exact String.le_refl _

end SortOrder

namespace Options

/-- The option that an entry becomes. With a path it is the first match in the entry, or `null` for none; with no
path it is what the entry has in the fields of an option, or the entry itself. -/
inductive Shows [Dialect] : Option String → Json → SelectOption → Prop
  | found {path : String} {entry value : Json} {rest : List Json}
      (selects : Dialect.select? path entry = some (value :: rest)) :
      Shows (some path) entry ⟨value.looseText, value⟩
  | unmatched {path : String} {entry : Json} (selects : Dialect.select? path entry = some []) :
      Shows (some path) entry ⟨"null", .null⟩
  | fields {entry display value : Json} (shown : entry.member? "display" = some display)
      (chosen : entry.member? "value" = some value) : Shows none entry ⟨display.looseText, value⟩
  | whole {entry : Json} (lacks : entry.member? "display" = none ∨ entry.member? "value" = none) :
      Shows none entry ⟨entry.looseText, entry⟩

/-- The same options in the given order if there is one, and those that show the same text as they were. -/
structure StablySorted (order : Option SortOrder) (before after : List SelectOption) : Prop where
  perm : after.Perm before
  ordered : ∀ o, order = some o → after.Pairwise o.Allows
  unordered : order = none → after = before
  stable : ∀ text, after.filter (·.display = text) = before.filter (·.display = text)

section Sorting

variable {o : SortOrder} {xs ys zs : List SelectOption}

theorem sorted_eq (o : SortOrder) (xs : List SelectOption) :
    sorted o xs = xs.mergeSort fun a b => decide (o.Allows a b) := by
  cases o <;> rfl

theorem sorted_perm (o : SortOrder) (xs : List SelectOption) : (sorted o xs).Perm xs := by
  rw [sorted_eq]
  exact List.mergeSort_perm xs _

theorem decide_allows_trans (o : SortOrder) (a b c : SelectOption) (hab : decide (o.Allows a b) = true)
    (hbc : decide (o.Allows b c) = true) : decide (o.Allows a c) = true :=
  decide_eq_true ((of_decide_eq_true hab).trans (of_decide_eq_true hbc))

theorem decide_allows_total (o : SortOrder) (a b : SelectOption) :
    (decide (o.Allows a b) || decide (o.Allows b a)) = true := by
  simpa only [Bool.or_eq_true, decide_eq_true_eq] using o.allows_total a b

theorem sorted_pairwise (o : SortOrder) (xs : List SelectOption) : (sorted o xs).Pairwise o.Allows := by
  rw [sorted_eq]
  exact (List.pairwise_mergeSort (decide_allows_trans o) (decide_allows_total o) xs).imp of_decide_eq_true

theorem filter_sorted (o : SortOrder) (xs : List SelectOption) (text : String) :
    (sorted o xs).filter (·.display = text) = xs.filter (·.display = text) := by
  have hties : (xs.filter (·.display = text)).Pairwise fun a b => decide (o.Allows a b) = true := by
    refine List.pairwise_of_forall_mem_list fun a ha b hb => decide_eq_true ?_
    have hatext := of_decide_eq_true (List.mem_filter.mp ha).2
    have hbtext := of_decide_eq_true (List.mem_filter.mp hb).2
    exact SortOrder.allows_of_display_eq (hatext.trans hbtext.symm)
  have hsub : (xs.filter (·.display = text)).Sublist (sorted o xs) := by
    rw [sorted_eq]
    exact List.sublist_mergeSort (decide_allows_trans o) (decide_allows_total o) hties List.filter_sublist
  have hkept := hsub.filter (·.display = text)
  simp only [List.filter_filter, Bool.and_self] at hkept
  exact (hkept.eq_of_length ((sorted_perm o xs).filter _).length_eq.symm).symm

theorem allows_of_mem {y z : SelectOption} (hz : (z :: zs).Pairwise o.Allows) (hy : y ∈ z :: zs) :
    o.Allows z y := by
  rcases List.mem_cons.mp hy with rfl | hy
  · exact SortOrder.allows_of_display_eq rfl
  · exact (List.pairwise_cons.mp hz).1 y hy

/-- An order with the order among options of the same text leaves no choice. -/
theorem eq_of_pairwise_of_filter (hy : ys.Pairwise o.Allows) (hz : zs.Pairwise o.Allows)
    (h : ∀ text, ys.filter (·.display = text) = zs.filter (·.display = text)) : ys = zs := by
  have hmem {y : SelectOption} {us vs : List SelectOption}
      (heq : us.filter (·.display = y.display) = vs.filter (·.display = y.display)) (hu : y ∈ us) : y ∈ vs := by
    have hfilter : y ∈ us.filter (·.display = y.display) := List.mem_filter.mpr ⟨hu, decide_eq_true rfl⟩
    rw [heq] at hfilter
    exact (List.mem_filter.mp hfilter).1
  induction ys generalizing zs with
  | nil =>
    cases zs with
    | nil => rfl
    | cons z zs => cases hmem (h z.display).symm List.mem_cons_self
  | cons y ys ih =>
    cases zs with
    | nil => cases hmem (h y.display) List.mem_cons_self
    | cons z zs =>
      have hzy : o.Allows z y := allows_of_mem hz (hmem (h y.display) List.mem_cons_self)
      have hyz : o.Allows y z := allows_of_mem hy (hmem (h z.display).symm List.mem_cons_self)
      have hheads := h y.display
      simp only [List.filter_cons, hzy.display_eq hyz, decide_true, if_true] at hheads
      cases (List.cons.inj hheads).1
      rw [ih (List.pairwise_cons.mp hy).2 (List.pairwise_cons.mp hz).2 fun text => ?_]
      have htext := h text
      rw [List.filter_cons, List.filter_cons] at htext
      split at htext
      · exact (List.cons.inj htext).2
      · exact htext

theorem stablySorted_sorted (o : SortOrder) (xs : List SelectOption) : StablySorted (some o) xs (sorted o xs) where
  perm := sorted_perm o xs
  ordered := by
    rintro _ ⟨⟩
    exact sorted_pairwise o xs
  unordered := nofun
  stable := filter_sorted o xs

example : sorted .descending [⟨"no", .int 1⟩, ⟨"yes", .int 2⟩, ⟨"no", .int 3⟩] =
    [⟨"yes", .int 2⟩, ⟨"no", .int 1⟩, ⟨"no", .int 3⟩] := by
  cbv

theorem stablySorted_arranged (order : Option SortOrder) (xs : List SelectOption) :
    StablySorted order xs (match order with
      | some o => sorted o xs
      | none => xs) := by
  cases order with
  | none => exact ⟨.refl xs, nofun, fun _ => rfl, fun _ => rfl⟩
  | some o => exact stablySorted_sorted o xs

theorem StablySorted.unique {order : Option SortOrder} (h : StablySorted order xs ys)
    (h' : StablySorted order xs zs) : ys = zs := by
  cases order with
  | none => rw [h.unordered rfl, h'.unordered rfl]
  | some o =>
    exact eq_of_pairwise_of_filter (h.ordered o rfl) (h'.ordered o rfl) fun text =>
      (h.stable text).trans (h'.stable text).symm

end Sorting

section Entries

variable [Dialect] {source : OptionSource} {entry : Json} {entries : List Json} {shown options : List SelectOption}

theorem shape_eq_iff {option : SelectOption} : shape entry = option ↔ Shows none entry option := by
  constructor
  · rintro rfl
    unfold shape
    split
    · exact .fields ‹_› ‹_›
    · rename_i hlacks
      refine .whole (or_iff_not_and_not.mpr fun ⟨hdisplay, hvalue⟩ => ?_)
      obtain ⟨display, hdisplay⟩ := Option.ne_none_iff_exists'.mp hdisplay
      obtain ⟨value, hvalue⟩ := Option.ne_none_iff_exists'.mp hvalue
      exact hlacks display value hdisplay hvalue
  · rintro (_ | _ | ⟨shown, chosen⟩ | ⟨lacks⟩)
    · simp only [shape, shown, chosen]
    · rcases lacks with lacks | lacks <;> simp [shape, lacks]

theorem project_eq_iff {path : String} {found : List Json} {option : SelectOption}
    (hselect : Dialect.select? path entry = some found) :
    project found = option ↔ Shows (some path) entry option := by
  constructor
  · rintro rfl
    cases found with
    | nil =>
      have hproject : project [] = ⟨"null", .null⟩ := by simp [project, Json.looseText]
      rw [hproject]
      exact .unmatched hselect
    | cons value rest => exact .found hselect
  · rintro (⟨selects⟩ | ⟨selects⟩)
    · cases hselect.symm.trans selects
      rfl
    · cases hselect.symm.trans selects
      simp [project, Json.looseText]

theorem ofEntries_eq_ok_iff :
    ofEntries source entries = .ok shown ↔ List.Forall₂ (Shows source.path) entries shown := by
  unfold ofEntries
  cases source.path with
  | none =>
    have hshows : Shows none = fun entry option => shape entry = option := by
      funext entry option
      exact propext shape_eq_iff.symm
    rw [hshows, ← List.forall₂_map_left_iff, List.forall₂_eq_eq_eq, Except.ok.injEq]
  | some path =>
    refine mapM_eq_ok_iff.trans (iff_of_eq ?_)
    congr 1
    funext entry option
    apply propext
    cases hselect : Dialect.select? path entry with
    | none =>
      refine iff_of_false nofun ?_
      rintro (⟨selects⟩ | ⟨selects⟩) <;> cases hselect.symm.trans selects
    | some found => exact (iff_of_eq (Except.ok.injEq _ _)).trans (project_eq_iff hselect)

theorem ofBody_eq_ok_iff {body : Json} : ofBody source body = .ok options ↔
    ∃ entries shown, body = .array entries ∧ List.Forall₂ (Shows source.path) entries shown ∧
      StablySorted source.order shown options := by
  constructor
  · intro hbody
    cases body with
    | array entries =>
      obtain ⟨shown, hshown, hsorted⟩ := exists_ok_of_bind hbody
      cases hsorted
      exact ⟨entries, shown, rfl, ofEntries_eq_ok_iff.mp hshown, stablySorted_arranged source.order shown⟩
    | _ => cases hbody
  · rintro ⟨entries, shown, rfl, hshown, hsorted⟩
    have hentries : ofEntries source entries = .ok shown := ofEntries_eq_ok_iff.mpr hshown
    rw [hsorted.unique (stablySorted_arranged source.order shown)]
    simp only [ofBody, hentries]
    rfl

end Entries

/-- An answer with options comes of a list, with an option for each entry and all of them stably sorted, and
every such list is answered with them. -/
theorem fetch_eq_ok_iff [Dialect] (policy : RetryPolicy) (transport : Transport) (source : OptionSource)
    (options : List SelectOption) :
    (fetch policy transport source).result = .ok options ↔ ∃ last entries shown,
      policy.EndsAt (fun n => transport n (.get source.url)) last ∧
      transport last (.get source.url) = .ok (.array entries) ∧
      List.Forall₂ (Shows source.path) entries shown ∧ StablySorted source.order shown options := by
  obtain ⟨last, hends, hresult, -⟩ :=
    Attempts.run_last policy source.url fun n => transport n (.get source.url)
  have hfetch : (fetch policy transport source).result =
      (transport last (.get source.url)).bind (ofBody source) := by
    simp only [fetch, Attempts.send, Nat.zero_add]
    rw [← hresult]
    rfl
  rw [hfetch]
  constructor
  · intro hok
    obtain ⟨body, hbody, hoptions⟩ := exists_ok_of_bind hok
    obtain ⟨entries, shown, rfl, hshown, hsorted⟩ := ofBody_eq_ok_iff.mp hoptions
    exact ⟨last, entries, shown, hends, hbody, hshown, hsorted⟩
  · rintro ⟨last', entries, shown, hends', hbody, hshown, hsorted⟩
    cases hends.unique hends'
    rw [hbody]
    exact ofBody_eq_ok_iff.mpr ⟨entries, shown, rfl, hshown, hsorted⟩

end Options

end Formwork
