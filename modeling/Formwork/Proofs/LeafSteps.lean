import Formwork.Proofs.Chronicle
import Formwork.Proofs.Registry

/-! All that an operation can do to a form: it puts one leaf at most in the place of another, registers
one message at most, and hands out tickets with the remote validators of the leaf they are for. -/

namespace Formwork

open Node (Address)

variable [Dialect]

namespace Operation

def registrations : Operation → Keyed Message
  | register key text => [(key, .fixed text)]
  | _ => []

inductive Makes : Operation → Leaf → Leaf → Prop
  | touched {p : ControlPath} {l : Leaf} : Makes (touch p) l { l with touched := true }
  | renewed {o : Operation} {l : Leaf} (value : Json) (dirty : Bool)
      (kept : l.dirty = true → dirty = true) : Makes o l
      { l with value := value, dirty := dirty, generation := l.generation + 1 }.validated
  | settled {t : Ticket} {outcome : Option Failures} {l : Leaf} :
      Makes (settle t outcome) l (l.settled outcome)
  | answered {p : ControlPath} {policy : RetryPolicy} {transport : Transport} {l : Leaf} {t : Ticket}
      (asked : t.validators = l.remotes) :
      Makes (validateFully p policy transport) l (l.waiting.settled (Inquiry.run policy transport t).outcome)

end Operation

namespace Entry

structure Steps (e : Entry) : Prop where
  leaves : e.after.store = e.before.store ∨ ∃ p l l', e.before.store.leaf? p = some l ∧
    e.operation.Makes l l' ∧ e.after.store = e.before.store.setLeaf p l'
  messages : e.after.messages = e.before.messages.putAll e.operation.registrations
  issued : ∀ t, e.issued? = some t → ∃ l, e.before.store.leaf? t.path = some l ∧
    t.validators = l.remotes

variable {f : Form} {o : Operation} {p : ControlPath} {l l' : Leaf} {r : Form.Reply (Option Ticket)}

theorem steps_of_error {error : FormError} (h : f.operate o = .error error)
    (ho : o.registrations = []) : (Entry.mk f o).Steps := by
  have hreply : (Entry.mk f o).reply = .error error := h
  have hafter : (Entry.mk f o).after = f := by rw [after, hreply]
  refine ⟨.inl (by rw [hafter]), ?_, ?_⟩
  · rw [hafter]
    simp [ho, Keyed.putAll]
  · simp [issued?, hreply]

theorem steps_of_put (hl : f.store.leaf? p = some l) (hr : f.operate o = .ok r)
    (hmakes : o.Makes l l') (hstore : r.form.store = f.store.setLeaf p l')
    (hmessages : r.form.messages = f.messages) (ho : o.registrations = [])
    (hissued : ∀ t, r.result = some t → t.path = p ∧ t.validators = l.remotes) :
    (Entry.mk f o).Steps := by
  have hreply : (Entry.mk f o).reply = .ok r := hr
  have hafter : (Entry.mk f o).after = r.form := by rw [after, hreply]
  refine ⟨.inr ⟨p, l, l', hl, hmakes, by rw [hafter, hstore]⟩, ?_, fun t ht => ?_⟩
  · rw [hafter, hmessages]
    simp [ho, Keyed.putAll]
  · rw [issued?, hreply] at ht
    obtain ⟨rfl, hvalidators⟩ := hissued t ht
    exact ⟨l, hl, hvalidators⟩

theorem steps_of_idle (hr : f.operate o = .ok r) (hstore : r.form.store = f.store)
    (hmessages : r.form.messages = f.messages.putAll o.registrations) (hresult : r.result = none) :
    (Entry.mk f o).Steps := by
  have hreply : (Entry.mk f o).reply = .ok r := hr
  have hafter : (Entry.mk f o).after = r.form := by rw [after, hreply]
  refine ⟨.inl (by rw [hafter, hstore]), by rw [hafter, hmessages], fun t ht => ?_⟩
  rw [issued?, hreply] at ht
  cases hresult.symm.trans ht

theorem steps_of_renewal (value : Json) (dirty : Bool) (events : List Event)
    (hl : f.store.leaf? p = some l) (hdirty : l.dirty = true → dirty = true) (ho : o.registrations = [])
    (hr : f.operate o = .ok { f.revalidate p
      { l with value := value, dirty := dirty, generation := l.generation + 1 } with
      events := events }) : (Entry.mk f o).Steps := by
  rw [Form.revalidate_eq] at hr
  refine steps_of_put hl hr (.renewed value dirty hdirty) rfl rfl ho fun t ht => ?_
  obtain ⟨-, hpath, -, -, hvalidators⟩ := Form.issue?_eq_some ht
  exact ⟨hpath, hvalidators⟩

theorem steps_settle {t : Ticket} (outcome : Option Failures) (hl : f.store.leaf? t.path = some l) :
    (Entry.mk f (.settle t outcome)).Steps := by
  have hoperate : f.operate (.settle t outcome) = (f.settle t outcome).map _ := rfl
  rw [Form.settle_eq hl] at hoperate
  by_cases hcurrent : l.generation = t.generation
  · rw [if_pos hcurrent] at hoperate
    exact steps_of_put hl hoperate .settled rfl rfl rfl nofun
  · rw [if_neg hcurrent] at hoperate
    exact steps_of_idle hoperate rfl rfl rfl

theorem steps_validateFully (policy : RetryPolicy) (transport : Transport)
    (hl : f.store.leaf? p = some l) : (Entry.mk f (.validateFully p policy transport)).Steps := by
  have hoperate : f.operate (.validateFully p policy transport) =
    (f.validateFully p policy transport).map _ := rfl
  cases ha : l.awaits with
  | false =>
    have hchecked : { l with generation := l.generation + 1 }.validated =
        { l with generation := l.generation + 1 }.checked := by
      have ha' : { l with generation := l.generation + 1 }.awaits = false := ha
      rw [Leaf.validated, ha']
      rfl
    rw [Form.validateFully_of_settled hl ha policy transport, ← hchecked] at hoperate
    exact steps_of_put hl hoperate (.renewed l.value l.dirty id) rfl rfl rfl fun t ht => by cases ht
  | true =>
    rw [Form.validateFully_of_awaits hl ha policy transport] at hoperate
    have hasked : (f.inquiryTicket p l).validators = l.remotes := rfl
    exact steps_of_put hl hoperate (.answered hasked) (Store.setLeaf_setLeaf hl _ _) rfl rfl fun t ht => by cases ht

theorem steps (e : Entry) : e.Steps := by
  obtain ⟨f, o⟩ := e
  cases ho : o.path? with
  | none =>
    cases o with
    | register key text => exact steps_of_idle rfl rfl rfl rfl
    | _ => cases ho
  | some p =>
    have hnone : o.registrations = [] := by
      cases o with
      | register key text => cases ho
      | _ => rfl
    cases hl : f.store.leaf? p with
    | none => exact steps_of_error (operate_error ho hl) hnone
    | some l =>
      cases o with
      | setValue q v =>
        cases ho
        exact steps_of_renewal v true _ hl (fun _ => rfl) hnone (Form.setValue_eq hl v)
      | setDefault q v =>
        cases ho
        exact steps_of_renewal v l.dirty _ hl id hnone (Form.setDefault_eq hl v)
      | applyOptions q options =>
        cases ho
        cases options with
        | nil => exact steps_of_idle (Form.applyOptions_nil_eq hl) rfl rfl rfl
        | cons first _ =>
          exact steps_of_renewal first.value l.dirty _ hl id hnone (Form.setDefault_eq hl first.value)
      | validate q =>
        cases ho
        exact steps_of_renewal l.value l.dirty _ hl id hnone (Form.validate_eq hl)
      | touch q =>
        cases ho
        exact steps_of_put hl (congrArg (Except.map _) (Form.touch_eq hl)) .touched rfl rfl rfl nofun
      | settle t outcome =>
        cases ho
        exact steps_settle outcome hl
      | validateFully q policy transport =>
        cases ho
        exact steps_validateFully policy transport hl
      | register key text => cases ho

end Entry

end Formwork
