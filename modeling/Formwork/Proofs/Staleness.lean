import Formwork.Dialect.Common
import Formwork.Proofs.Effect

/-! When the outcome of a ticket is applied: exactly as long as nothing has renewed its leaf. A leaf
counts its renewals, and a ticket carries the count of its issue. -/

namespace Formwork

/-- The command renews the control at a path, however it writes the path itself. -/
def Command.Renews (c : Command) (s : Store) (path : ControlPath) : Prop :=
  ∃ p, c.renewed? = some p ∧ s.address? p = s.address? path

namespace Session

theorem renews_iff {s : Session} {c : Command} {p q : ControlPath} (hc : c.renewed? = some p) :
    c.Renews s.form.store q ↔ s.form.store.address? p = s.form.store.address? q := by
  simp [Command.Renews, hc]

theorem not_renews {s : Session} {c : Command} (hc : c.renewed? = none) (q : ControlPath) :
    ¬ c.Renews s.form.store q := by
  rintro ⟨p, hp, -⟩
  cases hc.symm.trans hp

theorem leaf?_setLeaf_kept {s : Store} {p q : ControlPath} {l m : Leaf} (hl : s.leaf? p = some l)
    (hm : s.leaf? q = some m) (l' : Leaf) (hgen : l'.generation = l.generation)
    (hvalue : l'.value = l.value) :
    ∃ m', (s.setLeaf p l').leaf? q = some m' ∧ m'.generation = m.generation ∧ m'.value = m.value := by
  rw [Store.leaf?_setLeaf hl]
  by_cases ha : s.address? q = s.address? p
  · have hlm : l = m := Option.some.inj (hl.symm.trans ((Store.leaf?_congr ha.symm).trans hm))
    exact ⟨l', if_pos ha, hlm ▸ hgen, hlm ▸ hvalue⟩
  · exact ⟨m, by rw [if_neg ha, hm], rfl, rfl⟩

section

variable [Dialect]

/-- A command counts up the leaves that it renews, and leaves the count and the value of all others. -/
theorem leaf?_after {s : Session} {q : ControlPath} {m : Leaf}
    (hm : s.form.store.leaf? q = some m) (c : Command) :
    ∃ m', (s.after c).form.store.leaf? q = some m' ∧
      (c.Renews s.form.store q → m'.generation = m.generation + 1) ∧
      (¬ c.Renews s.form.store q → m'.generation = m.generation ∧ m'.value = m.value) := by
  rcases s.after_change c with ⟨r, hr, he⟩ | ⟨he, hnone⟩
  · rw [he]
    cases hr with
    | @renewed _ p l hc hl =>
      have hstore : (s.renewal c p l).session.form.store =
          s.form.store.setLeaf p (c.begun l).validated := rfl
      rw [hstore, Store.leaf?_setLeaf hl, renews_iff hc]
      by_cases ha : s.form.store.address? p = s.form.store.address? q
      · have hlm : l = m := Option.some.inj (hl.symm.trans ((Store.leaf?_congr ha).trans hm))
        have hgen : (c.begun l).validated.generation = m.generation + 1 :=
          hlm ▸ Command.generation_begun hc l
        exact ⟨_, if_pos ha.symm, fun _ => hgen, fun h => absurd ha h⟩
      · exact ⟨m, by rw [if_neg (Ne.symm ha), hm], fun h => absurd h ha, fun _ => ⟨rfl, rfl⟩⟩
    | @touched p l hl =>
      obtain ⟨m', hm', hkept⟩ := leaf?_setLeaf_kept hl hm { l with touched := true } rfl rfl
      exact ⟨m', hm', fun h => absurd h (not_renews rfl q), fun _ => hkept⟩
    | @settled _ _ l _ hl _ outcome =>
      obtain ⟨m', hm', hkept⟩ := leaf?_setLeaf_kept hl hm (l.settled outcome) rfl rfl
      exact ⟨m', hm', fun h => absurd h (not_renews rfl q), fun _ => hkept⟩
    | stale => exact ⟨m, hm, fun h => absurd h (not_renews rfl q), fun _ => ⟨rfl, rfl⟩⟩
    | vain => exact ⟨m, hm, fun h => absurd h (not_renews rfl q), fun _ => ⟨rfl, rfl⟩⟩
  · have hno : ¬ c.Renews s.form.store q := by
      rintro ⟨p, hp, ha⟩
      have hp' := hnone p hp
      rw [Store.leaf?_congr ha, hm] at hp'
      cases hp'
    exact ⟨m, by rw [he, hm], fun h => absurd h hno, fun _ => ⟨rfl, rfl⟩⟩

/-- How a ticket stands to its leaf: behind once that has been renewed, and until then up to date
with its count and its value. -/
structure Standing (s : Session) (i : Nat) (t : Ticket) (l : Leaf) (renewed : Prop) : Prop where
  ticket : s.tickets[i]? = some t
  leaf : s.form.store.leaf? t.path = some l
  behind : renewed → t.generation < l.generation
  current : ¬ renewed → l.generation = t.generation ∧ l.value = t.value

theorem Standing.after {s : Session} {i : Nat} {t : Ticket} {l : Leaf} {renewed : Prop}
    (h : s.Standing i t l renewed) (c : Command) :
    ∃ l', (s.after c).Standing i t l' (renewed ∨ c.Renews s.form.store t.path) := by
  obtain ⟨l', hl', hyes, hno⟩ := leaf?_after h.leaf c
  have hi : i < s.tickets.length := (List.getElem?_eq_some_iff.mp h.ticket).1
  refine ⟨l', ?_, hl', ?_, ?_⟩
  · obtain ⟨more, hmore⟩ := s.tickets_after c
    rw [← hmore, List.getElem?_append_left hi, h.ticket]
  · rintro (hr | hc)
    · have hlt := h.behind hr
      by_cases hc : c.Renews s.form.store t.path
      · have := hyes hc
        omega
      · have := (hno hc).1
        omega
    · have hle : t.generation ≤ l.generation := by
        by_cases hr : renewed
        · exact Nat.le_of_lt (h.behind hr)
        · exact Nat.le_of_eq (h.current hr).1.symm
      have := hyes hc
      omega
  · intro hr
    obtain ⟨hgen, hvalue⟩ := hno fun hc => hr (.inr hc)
    obtain ⟨hgen', hvalue'⟩ := h.current fun hr' => hr (.inl hr')
    exact ⟨hgen.trans hgen', hvalue.trans hvalue'⟩

theorem Standing.run {s : Session} {i : Nat} {t : Ticket} {l : Leaf} {renewed : Prop}
    (h : s.Standing i t l renewed) (since : List Command) :
    ∃ l', (s.run since).Standing i t l'
      (renewed ∨ ∃ c ∈ since, c.Renews s.form.store t.path) := by
  induction since generalizing s l renewed with
  | nil => exact ⟨l, by simpa [Session.run] using h⟩
  | cons c since ih =>
    obtain ⟨l₁, h₁⟩ := h.after c
    obtain ⟨l₂, h₂⟩ := ih h₁
    have hr : ∀ d : Command, d.Renews (s.after c).form.store t.path ↔ d.Renews s.form.store t.path :=
      fun d => by simp only [Command.Renews, address?_after]
    simp only [hr, or_assoc] at h₂
    exact ⟨l₂, by simpa [Session.run] using h₂⟩

theorem Standing.of_issued {s : Session} {c : Command} {r : Reply} {i : Nat} {t : Ticket}
    (h : s.perform c = .ok r) (hi : r.answer = .issued i t) :
    ∃ l, r.session.Standing i t l False := by
  cases perform_change h with
  | touched | settled | stale | vain => cases hi
  | @renewed _ path l hc hl =>
    cases ht : s.form.issue? path (c.begun l) with
    | none => simp [renewal, ht] at hi
    | some u =>
      simp only [renewal, ht, Answer.issued.injEq] at hi
      obtain ⟨rfl, rfl⟩ := hi
      obtain ⟨-, hp, hg, hv, -⟩ := Form.issue?_eq_some ht
      have htickets : (s.renewal c path l).session.tickets = s.tickets ++ [u] := by
        simp [renewal, ht]
      have hstore : (s.renewal c path l).session.form.store =
          s.form.store.setLeaf path (c.begun l).validated := rfl
      refine ⟨(c.begun l).validated, ?_, ?_, False.elim, fun _ => ⟨hg.symm, hv.symm⟩⟩
      · rw [htickets, List.getElem?_append_right (Nat.le_refl _), Nat.sub_self]
        rfl
      · rw [hstore, hp, Store.leaf?_setLeaf hl, if_pos rfl]

/-- Whatever happens after a ticket is issued, its outcome is applied if and only if no command has
renewed its leaf since. Then the leaf still has the value of the ticket. If not, nothing changes, and
the count that is reported for the ticket is less than that of the leaf. -/
theorem settle_applied_iff_not_renewed {f : Form} {before : List Command} {c : Command}
    {r : Reply} {i : Nat} {t : Ticket} (h : ((start f).run before).perform c = .ok r)
    (hi : r.answer = .issued i t) (since : List Command) (outcome : Option Failures) :
    ∃ l reply, (r.session.run since).form.leaf t.path = .ok l ∧
      (r.session.run since).perform (.settle i outcome) = .ok reply ∧
      ((∃ status, reply.answer = .settled (.applied status)) ↔
        ∀ d ∈ since, ¬ d.Renews f.store t.path) ∧
      ((∃ status, reply.answer = .settled (.applied status)) → l.value = t.value ∧
        reply.session.form = (r.session.run since).form.setLeaf t.path (l.settled outcome)) ∧
      ((¬ ∃ status, reply.answer = .settled (.applied status)) →
        reply = ⟨r.session.run since, [.staleResultDiscarded t.path t.generation l.generation],
          .settled .stale⟩ ∧ t.generation < l.generation) := by
  obtain ⟨l₀, h₀⟩ := Standing.of_issued h hi
  obtain ⟨l, hl⟩ := h₀.run since
  have hrenews : (False ∨ ∃ d ∈ since, d.Renews r.session.form.store t.path) ↔
      ¬ ∀ d ∈ since, ¬ d.Renews f.store t.path := by
    have ha : ∀ q, r.session.form.store.address? q = f.store.address? q := fun q =>
      ((perform_change h).address?_eq q).trans ((start f).address?_run before q)
    simp [Command.Renews, ha]
  refine ⟨l, _, Form.leaf_eq_ok.mpr hl.leaf, perform_settle hl.ticket hl.leaf outcome, ?_⟩
  by_cases hr : ∀ d ∈ since, ¬ d.Renews f.store t.path
  · obtain ⟨hgen, hvalue⟩ := hl.current fun hb => hrenews.mp hb hr
    rw [if_pos hgen]
    exact ⟨⟨fun _ => hr, fun _ => ⟨_, rfl⟩⟩, fun _ => ⟨hvalue, rfl⟩, fun hno => absurd ⟨_, rfl⟩ hno⟩
  · have hlt := hl.behind (hrenews.mpr hr)
    rw [if_neg (Nat.ne_of_gt hlt)]
    refine ⟨⟨?_, fun h => absurd h hr⟩, ?_, fun _ => ⟨rfl, hlt⟩⟩
    · rintro ⟨status, hs⟩
      cases hs
    · rintro ⟨status, hs⟩
      cases hs

end

theorem settle_stale_after_other_spelling :
    let form : Form := ⟨⟨.group [("items", .array [.leaf (.fresh [] [.external "name" ""])])]⟩, [], []⟩
    let ask := Command.validate ⟨"items.0"⟩
    let since := [Command.validate ⟨"items.00"⟩]
    ∃ r t, ((start form).run []).perform ask = .ok r ∧ r.answer = .issued 0 t ∧
      since.any (fun d => d.renewed? = some ⟨"items.00"⟩) ∧
      ∃ l reply, (r.session.run since).form.leaf t.path = .ok l ∧
        (r.session.run since).perform (.settle 0 none) = .ok reply ∧
        reply.answer = .settled .stale ∧ t.generation < l.generation := by
  intro form ask since
  refine ⟨_, _, rfl, rfl, by decide, ?_⟩
  obtain ⟨l, reply, hl, hreply, hiff, -, hstale⟩ :=
    @settle_applied_iff_not_renewed _ form [] ask _ 0 _ rfl rfl since none
  have hrenewed : ¬ ∃ status, reply.answer = .settled (.applied status) := fun h =>
    hiff.mp h _ List.mem_cons_self ⟨_, rfl, by decide⟩
  obtain ⟨he, hlt⟩ := hstale hrenewed
  exact ⟨l, reply, hl, hreply, by rw [he], hlt⟩

end Session

end Formwork
