import Mathlib.Data.List.Perm.Basic
import ShapeCheck.Proofs.Traversal
import ShapeCheck.Validator.Assertion
/-!
# Rejected assertions

A visit ends after all visits below it. `Visit.endings` lists the visits of a traversal in that
order, each with its verdict, and the rejected assertions among them are what is signalled. Main
theorem `assert_exact`: an assertion has the verdict and the calls of its validator and adds one
event for a rejection; a run signals the rejected assertions that it evaluates, each once and each
after those inside it.
-/
namespace ShapeCheck

namespace Site

/-- The visit at one site ends before that at another: it is below the other, or in a part of a
common visit that comes before the part of the other. -/
inductive EndsBefore : Site → Site → Prop where
  | inner (turn : Turn) (s : Site) : EndsBefore (s.under turn) root
  | earlier {a b : Turn} (h : a.Before b) (s t : Site) : EndsBefore (s.under a) (t.under b)
  | under {s t : Site} (h : EndsBefore s t) (turn : Turn) :
      EndsBefore (s.under turn) (t.under turn)

end Site

namespace Mark

theorem events_opening (mark : Mark) : Log.events mark.opening = [] := by
  unfold opening
  cases mark.call <;> rfl

theorem events_closing (mark : Mark) (accepted : Bool) : Log.events (mark.closing accepted) =
    if mark.asserts && !accepted then [.ofRejection mark.seen] else [] := by
  unfold closing
  split <;> rfl

end Mark

/-- A visit that has ended: where it was, what it showed, and its verdict. -/
structure Ending where
  site : Site
  mark : Mark
  accepted : Bool

namespace Ending

/-- The ending as it is seen from one turn before. -/
def under (turn : Turn) (e : Ending) : Ending := { e with site := e.site.under turn }

/-- Is it an assertion that did not hold? -/
def rejected (e : Ending) : Bool := e.mark.asserts && !e.accepted

/-- What is signalled if the assertion did not hold. -/
def event (e : Ending) : Event := .ofRejection e.mark.seen

end Ending

namespace Visit

mutual

/-- The visit and all below it, each after its parts. -/
@[simp] def endings : Visit → List Ending
  | .mk mark below =>
    endingsBelow below ++ [⟨.root, mark, mark.joint.verdict (verdicts below)⟩]

@[simp] def endingsBelow : List (Turn × Visit) → List Ending
  | [] => []
  | (turn, c) :: cs => (endings c).map (Ending.under turn) ++ endingsBelow cs

end

/-- The assertions that did not hold, in the order of their ends. -/
def rejections (c : Visit) : List Ending := c.endings.filter Ending.rejected

/-! ## Endings are visits in another order -/

theorem mem_endingsBelow {below : List (Turn × Visit)} {e : Ending} :
    e ∈ endingsBelow below ↔ ∃ b ∈ below, ∃ d ∈ b.2.endings, e = d.under b.1 := by
  induction below with
  | nil => simp
  | cons b below ih =>
    obtain ⟨turn, c⟩ := b
    simp [ih, eq_comm]

theorem endingsBelow_perm (below : List (Turn × Visit))
    (ih : ∀ b ∈ below, (b.2.endings.map fun e => (e.site, e.mark)).Perm b.2.visits) :
    ((endingsBelow below).map fun e => (e.site, e.mark)).Perm (visitsBelow below) := by
  induction below with
  | nil => exact List.Perm.nil
  | cons b below ihb =>
    obtain ⟨turn, c⟩ := b
    obtain ⟨hc, ih⟩ := List.forall_mem_cons.1 ih
    rw [endingsBelow, visitsBelow, List.map_append, List.map_map]
    refine List.Perm.append ?_ (ihb ih)
    have h := hc.map fun p : Site × Mark => (p.1.under turn, p.2)
    rwa [List.map_map] at h

/-- Every visit ends once. -/
theorem endings_perm_visits (c : Visit) :
    (c.endings.map fun e => (e.site, e.mark)).Perm c.visits := by
  induction c using Visit.induction with
  | mk mark below ih =>
    rw [endings, visits, List.map_append]
    exact ((endingsBelow_perm below ih).append_right _).trans (List.perm_append_singleton _ _)

theorem events_logBelow (below : List (Turn × Visit))
    (ih : ∀ b ∈ below, Log.events b.2.log = b.2.rejections.map Ending.event) :
    Log.events (logBelow below) =
      ((endingsBelow below).filter Ending.rejected).map Ending.event := by
  induction below with
  | nil => rfl
  | cons b below ihb =>
    obtain ⟨turn, c⟩ := b
    obtain ⟨hc, ih⟩ := List.forall_mem_cons.1 ih
    rw [logBelow, Log.events_append, ihb ih, hc, endingsBelow, List.filter_append,
      List.map_append, List.filter_map, List.map_map]
    rfl

/-- The events in the log of a visit are the rejected assertions in the order of their ends. -/
theorem events_log (c : Visit) : Log.events c.log = c.rejections.map Ending.event := by
  induction c using Visit.induction with
  | mk mark below ih =>
    rw [log, Log.events_append, Log.events_append, Mark.events_opening, Mark.events_closing,
      events_logBelow below ih, rejections, endings, List.filter_append, List.map_append,
      List.nil_append]
    refine congrArg _ ?_
    rw [List.filter_singleton, Ending.rejected]
    cases mark.asserts && !mark.joint.verdict (verdicts below) <;> rfl

theorem endingsBelow_prunedBelow_sublist (joint : Joint) (below : List (Turn × Visit))
    (ih : ∀ b ∈ below, b.2.pruned.endings.Sublist b.2.endings) :
    (endingsBelow (prunedBelow joint below)).Sublist (endingsBelow below) := by
  induction below with
  | nil => exact List.Sublist.refl _
  | cons b below ihb =>
    obtain ⟨turn, c⟩ := b
    obtain ⟨hc, ih⟩ := List.forall_mem_cons.1 ih
    rw [prunedBelow, endingsBelow, endingsBelow]
    refine (hc.map _).append ?_
    split
    · exact List.nil_sublist _
    · exact ihb ih

/-- Pruning takes endings away and leaves the verdicts of the others as they are. -/
theorem endings_pruned_sublist (c : Visit) : c.pruned.endings.Sublist c.endings := by
  induction c using Visit.induction with
  | mk mark below ih =>
    have hv := verdict_prunedBelow mark.joint below fun b _ => verdict_pruned b.2
    rw [pruned, endings, endings, hv]
    exact (endingsBelow_prunedBelow_sublist mark.joint below ih).append (List.Sublist.refl _)

/-- What a pruned traversal rejects is among all that ends, in the same order. -/
theorem rejections_pruned_sublist (c : Visit) : c.pruned.rejections.Sublist c.endings :=
  List.filter_sublist.trans (endings_pruned_sublist c)

/-- Parts that come from left to right end from left to right, and before the whole. -/
theorem pairwise_endings_mk (mark : Mark) (below : List (Turn × Visit))
    (hpair : below.Pairwise fun a b => a.1.Before b.1)
    (ih : ∀ b ∈ below, b.2.endings.Pairwise fun d e => d.site.EndsBefore e.site) :
    (Visit.mk mark below).endings.Pairwise fun d e => d.site.EndsBefore e.site := by
  rw [endings, List.pairwise_append]
  refine ⟨?_, List.pairwise_singleton _ _, ?_⟩
  · induction below with
    | nil => exact List.Pairwise.nil
    | cons b below ihb =>
      obtain ⟨turn, c⟩ := b
      obtain ⟨hc, ih⟩ := List.forall_mem_cons.1 ih
      obtain ⟨hb, hpair⟩ := List.pairwise_cons.1 hpair
      rw [endingsBelow, List.pairwise_append]
      refine ⟨?_, ihb hpair ih, ?_⟩
      · exact List.pairwise_map.2 (hc.imp fun h => .under h turn)
      · intro d hd e he
        obtain ⟨d', _, rfl⟩ := List.mem_map.1 hd
        obtain ⟨b', hb', e', _, rfl⟩ := mem_endingsBelow.1 he
        exact .earlier (hb b' hb') d'.site e'.site
  · intro d hd e he
    obtain ⟨b, _, d', _, rfl⟩ := mem_endingsBelow.1 hd
    cases List.mem_singleton.1 he
    exact .inner b.1 d'.site

end Visit

namespace Validator

open Visit

/-! ## The assertions of a run -/

/-- Is it an assertion? -/
def isAssertion : Validator → Bool
  | .asserting _ => true
  | _ => false

theorem asserts_mark_visit (w : Validator) (v : Value) :
    (w.visit v).mark.asserts = w.isAssertion := by
  cases w <;> rw [visit] <;> first | rfl | (split <;> rfl)

theorem seen_mark_visit (w : Validator) (v : Value) : (w.visit v).mark.seen = v.kind := by
  cases w <;> rw [visit] <;> first | rfl | (split <;> rfl)

theorem verdict_visit (w : Validator) (v : Value) : (w.visit v).verdict = w.accepts v := by
  rw [accepts, run_eq_result, result]

/-- **Endings are what they say.** What ends at a site is the visit of the validator that occurs
there, to the value at that position, with the verdict of that validator. -/
theorem ending_of_mem_endings {w : Validator} {v : Value} {e : Ending}
    (h : e ∈ (w.visit v).endings) :
    ∃ u, w.part? e.site.occurrence = some u ∧
      e.mark = (u.visit (v.followAll e.site.position)).mark ∧
      e.accepted = u.accepts (v.followAll e.site.position) := by
  induction w using Validator.parts_induction generalizing v e with
  | h w ih =>
    have hw := mk_mark_parts (w.visit v)
    rw [← hw, endings] at h
    rcases List.mem_append.1 h with h | h
    · obtain ⟨b, hb, d, hd, rfl⟩ := mem_endingsBelow.1 h
      obtain ⟨u, hu, he⟩ := mem_parts_visit hb
      obtain ⟨t, ht, hm, ha⟩ := ih u (List.mem_of_getElem? hu) (he ▸ hd)
      have hpos : v.followAll (d.under b.1).site.position =
          (v.turn b.1.step).followAll d.site.position := by
        cases hs : b.1.step <;> simp [Ending.under, Site.under, hs, Value.followAll, Value.turn]
      refine ⟨t, ?_, hpos ▸ hm, hpos ▸ ha⟩
      simp [Ending.under, Site.under, part?, hu, ht]
    · cases List.mem_singleton.1 h
      refine ⟨w, rfl, rfl, ?_⟩
      show _ = w.accepts v
      rw [← verdict_visit, ← hw, Visit.verdict]
      rfl

/-- What is inside ends first, and so does what is further left. -/
theorem pairwise_endings_visit (w : Validator) (v : Value) :
    (w.visit v).endings.Pairwise fun d e => d.site.EndsBefore e.site := by
  induction w using Validator.parts_induction generalizing v with
  | h w ih =>
    have hb : ∀ b ∈ (w.visit v).parts,
        b.2.endings.Pairwise fun d e => d.site.EndsBefore e.site := fun b hb => by
      obtain ⟨u, hu, he⟩ := mem_parts_visit hb
      exact he ▸ ih u (List.mem_of_getElem? hu) _
    rw [← mk_mark_parts (w.visit v)]
    exact pairwise_endings_mk _ _ (before_parts_visit w v) hb

theorem events_run (w : Validator) (v : Value) :
    (w.run v).log.events = (w.visit v).pruned.rejections.map Ending.event := by
  rw [run_eq_result, result, events_log]

/-- What holds throughout a validator holds of each part of a part of a part. -/
theorem Throughout.part? {P : Validator → Prop} {w u : Validator} (h : Throughout P w)
    {occurrence : List Nat} (hu : w.part? occurrence = some u) : P u := by
  induction occurrence generalizing w with
  | nil =>
    cases hu
    exact (throughout_iff.1 h).1
  | cons i rest ih =>
    obtain ⟨t, ht, hu⟩ := Option.bind_eq_some_iff.1 hu
    exact ih ((throughout_iff.1 h).2 t (List.mem_of_getElem? ht)) hu

/-- A rejection is the end of an assertion whose validator rejected the value that it saw. -/
theorem rejected_iff_of_mem_endings {w : Validator} {v : Value} {e : Ending}
    (h : e ∈ (w.visit v).endings) :
    e.mark.seen = (v.followAll e.site.position).kind ∧
      (e.rejected = true ↔ ∃ inner, w.part? e.site.occurrence = some (.asserting inner) ∧
        inner.accepts (v.followAll e.site.position) = false) := by
  obtain ⟨u, hu, hm, ha⟩ := ending_of_mem_endings h
  refine ⟨hm ▸ seen_mark_visit u _, ?_⟩
  rw [Ending.rejected, hm, asserts_mark_visit, ha, Bool.and_eq_true, Bool.not_eq_true']
  constructor
  · rintro ⟨hasserts, hreject⟩
    cases u with
    | asserting inner => exact ⟨inner, hu, by rwa [accepts_asserting] at hreject⟩
    | _ => cases hasserts
  · rintro ⟨inner, hinner, hreject⟩
    obtain rfl := Option.some.inj (hu.symm.trans hinner)
    exact ⟨rfl, by rwa [accepts_asserting]⟩

/-- What ends in a run is what it visits. -/
theorem exists_ending_iff {c : Visit} {s : Site} :
    (∃ e ∈ c.endings, e.site = s) ↔ s ∈ c.sites := by
  have hperm := (endings_perm_visits c).map Prod.fst
  rw [List.map_map] at hperm
  rw [sites, ← hperm.mem_iff, List.mem_map]
  rfl

/-- The rejections of a run are the assertions that it evaluates on values that their validators
reject. -/
theorem exists_rejection_iff {w : Validator} {v : Value} {s : Site} {seen : Kind} :
    (∃ e ∈ (w.visit v).pruned.rejections, e.site = s ∧ e.mark.seen = seen) ↔
      s ∈ (w.visit v).pruned.sites ∧ (v.followAll s.position).kind = seen ∧
        ∃ inner, w.part? s.occurrence = some (.asserting inner) ∧
          inner.accepts (v.followAll s.position) = false := by
  have hsub := (endings_pruned_sublist (w.visit v)).subset
  constructor
  · rintro ⟨e, he, rfl, rfl⟩
    obtain ⟨he, hr⟩ := List.mem_filter.1 he
    obtain ⟨hseen, hiff⟩ := rejected_iff_of_mem_endings (hsub he)
    exact ⟨exists_ending_iff.1 ⟨e, he, rfl⟩, hseen.symm, hiff.1 hr⟩
  · rintro ⟨hs, rfl, hinner⟩
    obtain ⟨e, he, rfl⟩ := exists_ending_iff.2 hs
    obtain ⟨hseen, hiff⟩ := rejected_iff_of_mem_endings (hsub he)
    exact ⟨e, List.mem_filter.2 ⟨he, hiff.2 hinner⟩, rfl, hseen⟩

/-- No assertion is rejected twice. -/
theorem nodup_sites_rejections (w : Validator) (v : Value) :
    ((w.visit v).pruned.rejections.map Ending.site).Nodup := by
  have hperm := (endings_perm_visits (w.visit v)).map Prod.fst
  rw [List.map_map] at hperm
  have hnodup : ((w.visit v).endings.map Ending.site).Nodup :=
    hperm.nodup_iff.2 (nodup_sites_visit w v)
  exact ((rejections_pruned_sublist _).map _).nodup hnodup

theorem events_eq_nil {w : Validator} (h : w.Throughout fun u => u.isAssertion = false)
    (v : Value) : (w.run v).log.events = [] := by
  rw [events_run, List.map_eq_nil_iff, List.eq_nil_iff_forall_not_mem]
  intro e he
  obtain ⟨-, -, inner, hinner, -⟩ := exists_rejection_iff.1 ⟨e, he, rfl, rfl⟩
  cases h.part? hinner

/-! ## An assertion on its own -/

theorem assert_fst (w : Validator) (v : Value) :
    (w.assert v).1 = if w.accepts v then .ok () else .error .rejected := by
  rw [assert, Run.accepted_asserted]
  rfl

theorem calls_assert (w : Validator) (v : Value) :
    (w.assert v).2.calls = (w.run v).log.calls := by
  cases h : (w.run v).accepted with
  | true => simp [assert, Run.asserted, h]
  | false => simp [assert, Run.asserted, h, Log.calls]

theorem events_assert (w : Validator) (v : Value) :
    (w.assert v).2.events =
      (w.run v).log.events ++ if w.accepts v then [] else [.ofRejection v.kind] := by
  cases h : (w.run v).accepted with
  | true => simp [assert, Run.asserted, accepts, h]
  | false => simp [assert, Run.asserted, accepts, h, Log.events]

/-- Inside a validator an assertion is what it is on its own. -/
theorem run_asserting (w : Validator) (v : Value) :
    run (.asserting w) v = ⟨(w.assert v).1.isOk, (w.assert v).2⟩ := by
  rw [assert_fst, accepts, run, ← Run.accepted_asserted v.kind, assert]
  cases h : ((w.run v).asserted v.kind).accepted
  · exact Run.mk.injEq .. ▸ ⟨h, rfl⟩
  · exact Run.mk.injEq .. ▸ ⟨h, rfl⟩

/-- What an assertion says and signals. Its outcome is the verdict of the validator, its calls are
those of the validator, and its events are those of the validator with one more after them if the
value was rejected. So it is with an assertion inside a validator. Over a whole run, the events are
those of the assertions that the run evaluates and that do not hold: one for each, with the kind of
the value that it saw, after those inside it and after those of earlier parts. Where nothing is
asserted, nothing is signalled. -/
structure SignalsRejections (w : Validator) (v : Value) : Prop where
  outcome : (w.assert v).1 = if w.accepts v then .ok () else .error .rejected
  calls : (w.assert v).2.calls = (w.run v).log.calls
  events : (w.assert v).2.events = (w.run v).log.events ++
    if w.accepts v then [] else [⟨"DEBUG", v.kind, "value rejected by assertion"⟩]
  inside : run (.asserting w) v = ⟨(w.assert v).1.isOk, (w.assert v).2⟩
  log : (w.run v).log = (w.visit v).pruned.log
  settled : (w.visit v).pruned.Settled
  rejections : (w.run v).log.events =
    (w.visit v).pruned.rejections.map fun e => .ofRejection e.mark.seen
  rejected_iff : ∀ s seen,
    (∃ e ∈ (w.visit v).pruned.rejections, e.site = s ∧ e.mark.seen = seen) ↔
      s ∈ (w.visit v).pruned.sites ∧ (v.followAll s.position).kind = seen ∧
        ∃ inner, w.part? s.occurrence = some (.asserting inner) ∧
          inner.accepts (v.followAll s.position) = false
  once : ((w.visit v).pruned.rejections.map Ending.site).Nodup
  ordered : (w.visit v).pruned.rejections.Pairwise fun d e => d.site.EndsBefore e.site
  silent : (w.Throughout fun u => u.isAssertion = false) → (w.run v).log.events = []

/-- **An assertion adds one event, and only for a rejection.** -/
theorem assert_exact (w : Validator) (v : Value) : w.SignalsRejections v where
  outcome := assert_fst w v
  calls := calls_assert w v
  events := events_assert w v
  inside := run_asserting w v
  log := by rw [run_eq_result, result]
  settled := settled_pruned _
  rejections := events_run w v
  rejected_iff _ _ := exists_rejection_iff
  once := nodup_sites_rejections w v
  ordered := (pairwise_endings_visit w v).sublist (rejections_pruned_sublist _)
  silent h := events_eq_nil h v

/-- A text is no number. As a test that is not signalled, as an assertion it is. -/
theorem assert_exact_text :
    (Validator.number.Throughout fun u => u.isAssertion = false) ∧
    (run .number (.string "5")).log.events = [] ∧
    (assert .number (.string "5")).2.events =
      [⟨"DEBUG", .string, "value rejected by assertion"⟩] := by
  have hplain : Validator.number.Throughout fun u => u.isAssertion = false :=
    .mk rfl fun _ h => absurd h List.not_mem_nil
  exact ⟨hplain, (assert_exact .number (.string "5")).silent hplain,
    (assert_exact .number (.string "5")).events⟩

/-- The rejection inside is signalled also where another member accepts. -/
example (x : Double) : Validator.assert (.any [.asserting .string, .number]) (.number x) =
    (.ok (), [.rejection .number]) := rfl

end Validator

end ShapeCheck
