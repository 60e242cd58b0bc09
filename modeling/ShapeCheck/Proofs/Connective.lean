import ShapeCheck.Proofs.Lookup
import ShapeCheck.Validator.Run
/-!
# Runs in turn

A validator that asks several others runs them from left to right until one decides: an `or` goes on
after a rejection, an `and` after an acceptance. `Connective.runs` is a list of runs taken in turn,
and every form that asks several validators, or one of them several times, is such a list
(`run_any` to `run_array`). Runs in turn can be taken piece by piece (`runs_append`), since going on
is associative and a run without signals that does not decide adds nothing.
-/
namespace ShapeCheck

/-- How the verdicts of several runs make one. -/
inductive Connective where
  /-- One acceptance is enough. -/
  | or
  /-- All must accept. -/
  | and
deriving DecidableEq, Repr

namespace Connective

/-- The verdict that does not decide. -/
def neutral : Connective → Bool
  | .or => false
  | .and => true

/-- Goes on unless the first run decides. -/
def next : Connective → Run → (Unit → Run) → Run
  | .or => Run.orElse
  | .and => Run.andThen

/-- The runs from left to right, up to the one that decides. -/
def runs (c : Connective) : List Run → Run
  | [] => .silent c.neutral
  | r :: rs => c.next r fun _ => c.runs rs

variable {c : Connective} {r : Run}

theorem next_of_accepted_eq (h : r.accepted = c.neutral) (f : Unit → Run) :
    c.next r f = ⟨(f ()).accepted, r.log ++ (f ()).log⟩ := by
  cases c with
  | or => exact if_neg (Bool.eq_false_iff.1 h)
  | and => exact if_pos h

theorem next_of_accepted_ne (h : r.accepted ≠ c.neutral) (f : Unit → Run) : c.next r f = r := by
  cases c with
  | or => exact if_pos (Bool.of_not_eq_false h)
  | and => exact if_neg h

theorem next_silent_left (c : Connective) (f : Unit → Run) :
    c.next (.silent c.neutral) f = f () :=
  next_of_accepted_eq rfl f

theorem next_silent_right (c : Connective) (r : Run) :
    (c.next r fun _ => .silent c.neutral) = r := by
  by_cases h : r.accepted = c.neutral
  · rw [next_of_accepted_eq h, Run.silent, List.append_nil, ← h]
  · exact next_of_accepted_ne h _

theorem next_assoc (c : Connective) (r : Run) (f g : Unit → Run) :
    c.next (c.next r f) g = c.next r fun _ => c.next (f ()) g := by
  by_cases hr : r.accepted = c.neutral
  · rw [next_of_accepted_eq hr, next_of_accepted_eq hr]
    let both : Run := ⟨(f ()).accepted, r.log ++ (f ()).log⟩
    show c.next both g = _
    by_cases hf : (f ()).accepted = c.neutral
    · have hboth : both.accepted = c.neutral := hf
      rw [next_of_accepted_eq hboth, next_of_accepted_eq hf, List.append_assoc]
    · have hboth : both.accepted ≠ c.neutral := hf
      rw [next_of_accepted_ne hboth, next_of_accepted_ne hf]
  · rw [next_of_accepted_ne hr, next_of_accepted_ne hr, next_of_accepted_ne hr]

/-! ## Runs in turn -/

/-- What comes after a part of the runs is gone on to from that part. -/
theorem runs_append (c : Connective) (rs ss : List Run) :
    c.runs (rs ++ ss) = c.next (c.runs rs) fun _ => c.runs ss := by
  induction rs with
  | nil => exact (next_silent_left c fun _ => c.runs ss).symm
  | cons r rs ih => rw [List.cons_append, runs, ih, runs, next_assoc]

theorem runs_singleton (c : Connective) (r : Run) : c.runs [r] = r :=
  next_silent_right c r

/-- Runs can be taken list by list. -/
theorem runs_flatten (c : Connective) (rss : List (List Run)) :
    c.runs rss.flatten = c.runs (rss.map c.runs) := by
  induction rss with
  | nil => rfl
  | cons rs rss ih => rw [List.flatten_cons, runs_append, ih]; rfl

theorem accepted_runs_or (rs : List Run) : (or.runs rs).accepted = rs.any Run.accepted := by
  induction rs with
  | nil => rfl
  | cons r rs ih => rw [runs, next, Run.accepted_orElse, ih, List.any_cons]

theorem accepted_runs_and (rs : List Run) : (and.runs rs).accepted = rs.all Run.accepted := by
  induction rs with
  | nil => rfl
  | cons r rs ih => rw [runs, next, Run.accepted_andThen, ih, List.all_cons]

/-- Nothing is signalled but by one of the runs. -/
theorem exists_mem_log_of_mem_log_runs {signal : Signal} {rs : List Run}
    (h : signal ∈ (c.runs rs).log) : ∃ r ∈ rs, signal ∈ r.log := by
  induction rs with
  | nil => cases h
  | cons r rs ih =>
    rw [runs] at h
    by_cases hr : r.accepted = c.neutral
    · rw [next_of_accepted_eq hr] at h
      rcases List.mem_append.1 h with h | h
      · exact ⟨r, List.mem_cons_self, h⟩
      · obtain ⟨s, hs, h⟩ := ih h
        exact ⟨s, List.mem_cons_of_mem r hs, h⟩
    · rw [next_of_accepted_ne hr] at h
      exact ⟨r, List.mem_cons_self, h⟩

end Connective

/-! ## The forms that ask several validators -/

namespace Validator

variable {v : Value}

theorem run_any (members : List Validator) (v : Value) :
    run (.any members) v = Connective.or.runs (members.map (·.run v)) := by
  rw [run]
  induction members with
  | nil => rfl
  | cons w ws ih => rw [runAny, ih]; rfl

theorem run_all (members : List Validator) (v : Value) :
    run (.all members) v = Connective.and.runs (members.map (·.run v)) := by
  rw [run]
  induction members with
  | nil => rfl
  | cons w ws ih => rw [runAll, ih]; rfl

theorem run_record (fields : List (String × Validator)) (hv : v.kind = .object) :
    run (.record fields) v = Connective.and.runs (fields.map fun f => f.2.run (v.field f.1)) := by
  cases v with
  | object tag entries =>
    rw [run]
    induction fields with
    | nil => rfl
    | cons f fs ih => rw [runFields, ih]; rfl
  | _ => cases hv

/-- Items that see the elements from here on see the element at their own place. -/
theorem runItems_eq_runs (items : List Validator) (elements : List Value) :
    runItems items elements =
      Connective.and.runs (items.mapIdx fun i w => w.run (elements.getD i .undefined)) := by
  induction items generalizing elements with
  | nil => rfl
  | cons w ws ih =>
    rw [runItems, ih, List.mapIdx_cons]
    cases elements <;> rfl

theorem run_tuple (items : List Validator) (hv : v.kind = .array) :
    run (.tuple items) v = Connective.and.runs (items.mapIdx fun i w => w.run (v.item i)) := by
  cases v with
  | array tag elements => exact runItems_eq_runs items elements
  | _ => cases hv

theorem every_eq_runs (check : Value → Run) (vs : List Value) :
    Run.every check vs = Connective.and.runs (vs.map check) := by
  induction vs with
  | nil => rfl
  | cons v vs ih => rw [Run.every, ih]; rfl

theorem run_object (w : Validator) (tag : Tag) (entries : Entries Value) :
    run (.object w) (.object tag entries) =
      Connective.and.runs (entries.map fun e => w.run e.2) := by
  rw [run, every_eq_runs, List.map_map]
  rfl

/-- Where keys are distinct, the values are the ones that are found at the keys. -/
theorem run_object_of_distinct (w : Validator) (tag : Tag) {entries : Entries Value}
    (hd : entries.Distinct) :
    run (.object w) (.object tag entries) = Connective.and.runs
      (entries.keys.map fun key => w.run ((Value.object tag entries).field key)) := by
  rw [run_object, Entries.keys, List.map_map]
  refine congrArg _ (List.map_congr_left fun e he => ?_)
  rw [Function.comp_apply, Value.field, (Entries.get?_eq_some_iff hd).2 he, Option.getD_some]

theorem run_array (w : Validator) (tag : Tag) (elements : List Value) :
    run (.array w) (.array tag elements) = Connective.and.runs (elements.map w.run) :=
  every_eq_runs w.run elements

end Validator

end ShapeCheck
