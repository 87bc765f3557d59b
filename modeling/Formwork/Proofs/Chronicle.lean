import Formwork.Dialect.Common
import Formwork.Proofs.Accounting
import Formwork.Proofs.Operations

/-! The record of a run. It tells of every leaf which values were set, and what its status is or since
when it waits. -/

namespace Formwork

open Node (Address)

namespace Form

section

variable [Dialect]

def proceed (f : Form) (os : List Operation) : Form := os.foldl (fun f o => (Entry.mk f o).after) f

def record (f : Form) : List Operation → List Entry
  | [] => []
  | o :: os => ⟨f, o⟩ :: record (Entry.mk f o).after os

structure Agrees (log : List Entry) (a : Address) (l : Leaf) : Prop where
  set : ∀ e ∈ log, e.Sets a → ∃ m, e.after.store.leafAt? a = some m ∧ e.changes a = [m.generation]
  unset : ∀ e ∈ log, ¬ e.Sets a → e.changes a = []
  ascending : (log.flatMap (·.changes a)).Pairwise (· < ·)
  concluded : l.status ≠ .pending → (∃ e ∈ log, e.Judges a) →
    (log.flatMap (·.verdicts a)).getLast? = some (l.status, l.failureKeys)
  awaiting : l.status = .pending → ∃ earlier e later, log = earlier ++ e :: later ∧
    e.Issues a l.generation ∧ (∀ e' ∈ earlier ++ later, ¬ e'.Issues a l.generation) ∧
      ∀ e' ∈ e :: later, e'.verdicts a = []

/-- No generation that the record mentions is ahead of the leaf. -/
structure Traced (log : List Entry) (a : Address) (l : Leaf) : Prop extends Agrees log a l where
  changed : ∀ g ∈ log.flatMap (·.changes a), g ≤ l.generation
  issued : ∀ e ∈ log, ∀ g, e.Issues a g → g ≤ l.generation

section

variable {log : List Entry} {e : Entry} {a : Address} {l l' : Leaf}

theorem le_of_tells (h : e.Tells a l l') : l.generation ≤ l'.generation := by
  cases h with
  | kept _ _ generation => omega
  | awaits _ generation => omega
  | concludes _ generation => exact generation

theorem concluded_append (h : Agrees log a l) (htells : e.Tells a l l') (hstatus : l'.status ≠ .pending)
    (hjudged : ∃ d ∈ log ++ [e], d.Judges a) :
    ((log ++ [e]).flatMap (·.verdicts a)).getLast? = some (l'.status, l'.failureKeys) := by
  rw [List.flatMap_append, List.flatMap_singleton]
  cases htells with
  | kept status failures generation silent idle _ =>
    obtain ⟨d, hd, hj⟩ := hjudged
    have hlog : d ∈ log := by
      refine (List.mem_append.mp hd).resolve_right fun he => idle ?_
      rwa [← List.mem_singleton.mp he]
    rw [silent, List.append_nil, h.concluded (status ▸ hstatus) ⟨d, hlog, hj⟩, status, Leaf.failureKeys,
      Leaf.failureKeys, failures]
  | awaits status => exact absurd status hstatus
  | concludes _ _ verdict _ => rw [verdict, List.getLast?_concat]

theorem awaiting_append (h : Traced log a l) (htells : e.Tells a l l') (hstatus : l'.status = .pending) :
    ∃ earlier d later, log ++ [e] = earlier ++ d :: later ∧ d.Issues a l'.generation ∧
      (∀ d' ∈ earlier ++ later, ¬ d'.Issues a l'.generation) ∧
        ∀ d' ∈ d :: later, d'.verdicts a = [] := by
  cases htells with
  | kept status failures generation silent _ unissued =>
    obtain ⟨earlier, d, later, hlog, hissues, honce, hsilent⟩ := h.awaiting (status.symm.trans hstatus)
    rw [generation]
    refine ⟨earlier, d, later ++ [e], by rw [hlog, List.append_assoc]; rfl, hissues, ?_, ?_⟩
    · rw [← List.append_assoc]
      exact List.forall_mem_append.mpr ⟨honce, List.forall_mem_singleton.mpr (unissued _)⟩
    · rw [← List.cons_append]
      exact List.forall_mem_append.mpr ⟨hsilent, List.forall_mem_singleton.mpr silent⟩
  | awaits _ generation silent issues =>
    refine ⟨log, e, [], rfl, (issues _).mpr rfl, fun d hd hd' => ?_, List.forall_mem_singleton.mpr silent⟩
    have hle := h.issued d (List.append_nil log ▸ hd) _ hd'
    omega
  | concludes status => exact absurd hstatus status

theorem Traced.append (h : Traced log a l) (hl : e.after.store.leafAt? a = some l')
    (hmoves : e.Moves a l l') : Traced (log ++ [e]) a l' := by
  have hle := le_of_tells hmoves.tells
  have hchanges : ∀ g ∈ e.changes a, l.generation < g ∧ g = l'.generation := by
    intro g hg
    rcases hmoves.changes with ⟨-, hset, hlt⟩ | ⟨-, hnone⟩
    · rw [hset] at hg
      cases List.mem_singleton.mp hg
      exact ⟨hlt, rfl⟩
    · rw [hnone] at hg
      cases hg
  have hflat : (log ++ [e]).flatMap (·.changes a) = log.flatMap (·.changes a) ++ e.changes a := by
    rw [List.flatMap_append, List.flatMap_singleton]
  refine ⟨⟨?_, ?_, ?_, concluded_append h.toAgrees hmoves.tells, awaiting_append h hmoves.tells⟩, ?_, ?_⟩
  · refine List.forall_mem_append.mpr ⟨h.set, List.forall_mem_singleton.mpr fun hs => ?_⟩
    rcases hmoves.changes with ⟨-, hset, -⟩ | ⟨hno, -⟩
    · exact ⟨l', hl, hset⟩
    · exact absurd hs hno
  · refine List.forall_mem_append.mpr ⟨h.unset, List.forall_mem_singleton.mpr fun hs => ?_⟩
    rcases hmoves.changes with ⟨hyes, -, -⟩ | ⟨-, hnone⟩
    · exact absurd hyes hs
    · exact hnone
  · rw [hflat, List.pairwise_append]
    refine ⟨h.ascending, ?_, fun g hg g' hg' => ?_⟩
    · rcases hmoves.changes with ⟨-, hset, -⟩ | ⟨-, hnone⟩
      · rw [hset]
        exact List.pairwise_singleton _ _
      · rw [hnone]
        exact List.Pairwise.nil
    · exact Nat.lt_of_le_of_lt (h.changed g hg) (hchanges g' hg').1
  · rw [hflat]
    refine List.forall_mem_append.mpr ⟨fun g hg => Nat.le_trans (h.changed g hg) hle, fun g hg => ?_⟩
    exact Nat.le_of_eq (hchanges g hg).2
  · refine List.forall_mem_append.mpr ⟨fun d hd g hg => Nat.le_trans (h.issued d hd g hg) hle, ?_⟩
    refine List.forall_mem_singleton.mpr fun g hg => ?_
    cases hmoves.tells with
    | kept _ _ _ _ _ unissued => exact absurd hg (unissued g)
    | awaits _ _ _ issues => exact Nat.le_of_eq ((issues g).mp hg)
    | concludes _ _ _ unissued => exact absurd hg (unissued g)

end

def Chronicled (log : List Entry) (f : Form) : Prop :=
  ∀ a l, f.store.leafAt? a = some l → Traced log a l

theorem Chronicled.after {log : List Entry} {f : Form} (h : Chronicled log f) (o : Operation) :
    Chronicled (log ++ [⟨f, o⟩]) (Entry.mk f o).after := by
  intro a l' hl'
  obtain ⟨l, hl, hmoves⟩ := (Entry.mk f o).follows a l' hl'
  exact (h a l hl).append hl' hmoves

theorem Chronicled.proceed {log : List Entry} {f : Form} (h : Chronicled log f) (os : List Operation) :
    Chronicled (log ++ f.record os) (f.proceed os) := by
  induction os generalizing f log with
  | nil => exact (List.append_nil log).symm ▸ h
  | cons o os ih =>
    have hrest := ih (h.after o)
    rwa [List.append_assoc] at hrest

theorem chronicled_build {schema : Json} {messages : Messages} {f : Form}
    (h : build schema messages = .ok f) : Chronicled [] f := by
  intro a l hl
  have hchecked : l.checked = l :=
    (arranged_build h fun _ _ => Outline.checked_of_leafOf?).leafAt? hl
  have hstatus : l.status ≠ .pending := hchecked ▸ Leaf.statusOf_ne_pending _
  refine ⟨⟨nofun, nofun, List.Pairwise.nil, ?_, fun hp => absurd hp hstatus⟩, nofun, nofun⟩
  rintro - ⟨e, he, -⟩
  cases he

/-- After every run from a built form, the record agrees with all leaves, and what has failed has changed
nothing and reported nothing. -/
theorem agrees_of_build {schema : Json} {messages : Messages} {f : Form}
    (h : build schema messages = .ok f) (os : List Operation) :
    (∀ a l, (f.proceed os).store.leafAt? a = some l → Agrees (f.record os) a l) ∧
      ∀ e ∈ f.record os, ∀ error, e.reply = .error error → e.events = [] ∧ e.after = e.before ∧
        ∃ p, e.operation.path? = some p ∧ e.before.store.leaf? p = none ∧ error = .notAControl p := by
  refine ⟨fun a l hl => ((chronicled_build h).proceed os a l hl).toAgrees, fun e _ error he => ?_⟩
  refine ⟨?_, ?_, Entry.reply_eq_error he⟩
  · rw [Entry.events, he]
  · rw [Entry.after, he]

end

def renamings : List Operation :=
  [.setValue ⟨"name"⟩ (.string "ann"), .setValue ⟨"name"⟩ (.string "bob"), .touch ⟨"surname"⟩,
    .settle ⟨⟨"name"⟩, 1, .string "ann", [], .null⟩ none]

theorem renamings_agree :
    build Session.askedName [] = .ok Session.askedForm ∧
      ∃ l, (Session.askedForm.proceed renamings).store.leafAt? [.key "name"] = some l ∧
        l.status = .pending ∧ Agrees (Session.askedForm.record renamings) [.key "name"] l := by
  have hbuild : build Session.askedName [] = .ok Session.askedForm := rfl
  have hleaf : ((Session.askedForm.proceed renamings).store.leafAt? [.key "name"]).map Leaf.status =
      some .pending := by decide
  obtain ⟨l, hl, hstatus⟩ := Option.map_eq_some_iff.mp hleaf
  exact ⟨hbuild, l, hl, hstatus, (agrees_of_build hbuild renamings).1 _ l hl⟩

end Form

end Formwork
