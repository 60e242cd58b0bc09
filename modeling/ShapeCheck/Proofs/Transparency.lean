import Mathlib.Logic.Function.Iterate
import ShapeCheck.Proofs.Growth
import ShapeCheck.Proofs.Rejection
/-!
# Wrappers are transparent

A wrapper asks one validator about the very value that it is given: a handle with the type erased,
an assertion, a spy. `Validator.without` takes wrappers off at every depth. Main theorem
`wrappers_are_transparent`: no wrapper changes a verdict or a call of another probe, and a handle
changes nothing at all.
-/
namespace ShapeCheck

/-- A form that asks one validator about the value itself. -/
inductive Wrapper where
  | boxed
  | asserting
  | spy (name : String)
deriving DecidableEq

namespace Wrapper

def wrap : Wrapper → Validator → Validator
  | .boxed => .boxed
  | .asserting => .asserting
  | .spy name => .spy name

/-- Can the wrapper give this signal? -/
def signals : Wrapper → Signal → Bool
  | .asserting, .rejection _ => true
  | .spy name, .call name' _ => name = name'
  | _, _ => false

end Wrapper

namespace Validator

/-- The wrapper that the validator is, if it is one. -/
def wrapper? : Validator → Option Wrapper
  | .boxed _ => some .boxed
  | .asserting _ => some .asserting
  | .spy name _ => some (.spy name)
  | _ => none

/-! ## All that is inside -/

mutual

/-- The validator and all that are in it, each before its parts. -/
def inside : Validator → List Validator
  | .object w => .object w :: inside w
  | .array w => .array w :: inside w
  | .record fields => .record fields :: insideFields fields
  | .tuple items => .tuple items :: insideAll items
  | .any members => .any members :: insideAll members
  | .all members => .all members :: insideAll members
  | .or left right => .or left right :: (inside left ++ inside right)
  | .and left right => .and left right :: (inside left ++ inside right)
  | .boxed w => .boxed w :: inside w
  | .asserting w => .asserting w :: inside w
  | .spy name w => .spy name w :: inside w
  | w => [w]

def insideAll : List Validator → List Validator
  | [] => []
  | w :: ws => inside w ++ insideAll ws

def insideFields : List (String × Validator) → List Validator
  | [] => []
  | (_, w) :: fields => inside w ++ insideFields fields

end

theorem insideAll_eq (ws : List Validator) : insideAll ws = ws.flatMap inside := by
  induction ws with
  | nil => rfl
  | cons w ws ih => simp [insideAll, ih]

theorem insideFields_eq (fields : List (String × Validator)) :
    insideFields fields = (fields.map Prod.snd).flatMap inside := by
  induction fields with
  | nil => rfl
  | cons f fields ih =>
    obtain ⟨key, w⟩ := f
    simp [insideFields, ih]

theorem inside_eq (w : Validator) : w.inside = w :: w.parts.flatMap inside := by
  cases w <;> simp [inside, parts, insideAll_eq, insideFields_eq]

theorem forall_mem_inside_iff {P : Validator → Prop} {w : Validator} :
    (∀ u ∈ w.inside, P u) ↔ P w ∧ ∀ t ∈ w.parts, ∀ u ∈ t.inside, P u := by
  rw [inside_eq, List.forall_mem_cons]
  refine and_congr_right fun _ => ⟨fun h t ht u hu => h u (List.mem_flatMap.2 ⟨t, ht, hu⟩), ?_⟩
  intro h u hu
  obtain ⟨t, ht, hu⟩ := List.mem_flatMap.1 hu
  exact h t ht u hu

/-- What is inside can be gone through as a list or as a tree. -/
theorem throughout_of_forall_mem_inside {P : Validator → Prop} {w : Validator}
    (h : ∀ u ∈ w.inside, P u) : w.Throughout P := by
  induction w using Validator.parts_induction with
  | h w ih =>
    obtain ⟨hw, hp⟩ := forall_mem_inside_iff.1 h
    exact .mk hw fun t ht => ih t ht (hp t ht)

theorem mem_inside_of_part? {w u : Validator} {occurrence : List Nat}
    (h : w.part? occurrence = some u) : u ∈ w.inside := by
  induction occurrence generalizing w with
  | nil =>
    cases h
    rw [inside_eq]
    exact List.mem_cons_self
  | cons i rest ih =>
    obtain ⟨t, ht, hu⟩ := Option.bind_eq_some_iff.1 h
    rw [inside_eq]
    exact List.mem_cons_of_mem _ (List.mem_flatMap.2 ⟨t, List.mem_of_getElem? ht, ih hu⟩)

def stubName? : Validator → Option String
  | .stub name _ => some name
  | _ => none

def spyName? : Validator → Option String
  | .spy name _ => some name
  | _ => none

/-- The names of the stubs in a validator. -/
def stubNames (w : Validator) : List String := w.inside.filterMap stubName?

/-- The names of the spies in a validator. -/
def spyNames (w : Validator) : List String := w.inside.filterMap spyName?

/-! ## Taking wrappers off -/

mutual

/-- The validator without the wrappers that are dropped, at every depth. What they wrap stays. -/
def without (drop : Wrapper → Bool) : Validator → Validator
  | .object w => .object (without drop w)
  | .array w => .array (without drop w)
  | .record fields => .record (withoutFields drop fields)
  | .tuple items => .tuple (withoutAll drop items)
  | .any members => .any (withoutAll drop members)
  | .all members => .all (withoutAll drop members)
  | .or left right => .or (without drop left) (without drop right)
  | .and left right => .and (without drop left) (without drop right)
  | .boxed w => if drop .boxed then without drop w else .boxed (without drop w)
  | .asserting w => if drop .asserting then without drop w else .asserting (without drop w)
  | .spy name w => if drop (.spy name) then without drop w else .spy name (without drop w)
  | w => w

def withoutAll (drop : Wrapper → Bool) : List Validator → List Validator
  | [] => []
  | w :: ws => without drop w :: withoutAll drop ws

def withoutFields (drop : Wrapper → Bool) :
    List (String × Validator) → List (String × Validator)
  | [] => []
  | (key, w) :: fields => (key, without drop w) :: withoutFields drop fields

end

/-- The validator without any wrapper. -/
def stripped (w : Validator) : Validator := w.without fun _ => true

/-- The validator with no type erased. -/
def unboxed (w : Validator) : Validator := w.without (· = .boxed)

variable {drop : Wrapper → Bool}

theorem withoutAll_eq_map (ws : List Validator) :
    withoutAll drop ws = ws.map (without drop) := by
  induction ws with
  | nil => rfl
  | cons w ws ih => simp [withoutAll, ih]

theorem withoutFields_eq_map (fields : List (String × Validator)) :
    withoutFields drop fields = fields.map fun f => (f.1, f.2.without drop) := by
  induction fields with
  | nil => rfl
  | cons f fields ih =>
    obtain ⟨key, w⟩ := f
    simp [withoutFields, ih]

theorem without_wrap (t : Wrapper) (w : Validator) :
    (t.wrap w).without drop = if drop t then w.without drop else t.wrap (w.without drop) := by
  cases t <;> rw [Wrapper.wrap, without]

/-- Is it a wrapper that is dropped? -/
def dropped (drop : Wrapper → Bool) (w : Validator) : Bool := w.wrapper?.any drop

/-- What is not dropped stays what it is. -/
theorem wrapper?_without {w : Validator} (h : w.dropped drop = false) :
    (w.without drop).wrapper? = w.wrapper? := by
  cases w with
  | boxed w | asserting w | spy name w =>
    rw [dropped, wrapper?, Option.any_some] at h
    rw [without, h]
    rfl
  | _ => rfl

theorem stubName?_without {w : Validator} (h : w.dropped drop = false) :
    (w.without drop).stubName? = w.stubName? := by
  cases w with
  | boxed w | asserting w | spy name w =>
    rw [dropped, wrapper?, Option.any_some] at h
    rw [without, h]
    rfl
  | _ => rfl

/-- What is not dropped keeps its parts. -/
theorem parts_without {w : Validator} (h : w.dropped drop = false) :
    (w.without drop).parts = w.parts.map (without drop) := by
  cases w with
  | boxed w | asserting w | spy name w =>
    rw [dropped, wrapper?, Option.any_some] at h
    rw [without, h]
    rfl
  | record fields =>
    rw [without, withoutFields_eq_map, parts, parts, List.map_map, List.map_map]
    rfl
  | tuple ws | any ws | all ws =>
    rw [without, withoutAll_eq_map]
    rfl
  | _ => rfl

/-- What is dropped leaves its place to its part. -/
theorem exists_part_of_dropped {w : Validator} (h : w.dropped drop = true) :
    ∃ inner, w.parts = [inner] ∧ w.without drop = inner.without drop := by
  cases w with
  | boxed w | asserting w | spy name w => exact ⟨w, rfl, by rw [without]; exact if_pos h⟩
  | _ => cases h

/-- **Dropping takes away the dropped wrappers, nothing else.** -/
theorem inside_without (w : Validator) : (w.without drop).inside =
    (w.inside.filter fun u => !u.dropped drop).map (without drop) := by
  induction w using Validator.parts_induction with
  | h w ih =>
    rw [inside_eq w]
    cases h : w.dropped drop with
    | true =>
      obtain ⟨inner, hparts, hinner⟩ := exists_part_of_dropped h
      rw [List.filter_cons_of_neg (by simp [h]), hparts, List.flatMap_singleton, hinner]
      exact ih inner (hparts ▸ List.mem_singleton_self inner)
    | false =>
      rw [List.filter_cons_of_pos (by simp [h]), List.map_cons, inside_eq, parts_without h,
        List.flatMap_map, List.filter_flatMap, List.map_flatMap]
      exact congrArg _ (List.flatMap_congr ih)

theorem not_dropped_of_mem_inside_without {w u : Validator} (h : u ∈ (w.without drop).inside) :
    u.dropped drop = false := by
  rw [inside_without] at h
  obtain ⟨t, ht, rfl⟩ := List.mem_map.1 h
  have hdropped : t.dropped drop = false := by simpa using (List.mem_filter.1 ht).2
  rw [dropped, wrapper?_without hdropped]
  exact hdropped

/-- No stub is lost. -/
theorem stubNames_without (w : Validator) : (w.without drop).stubNames = w.stubNames := by
  rw [stubNames, stubNames, inside_without, List.filterMap_map, List.filterMap_filter]
  refine List.filterMap_congr fun u _ => ?_
  cases h : u.dropped drop with
  | true => cases u <;> first | rfl | cases h
  | false => exact stubName?_without h

theorem wrapper?_of_mem_inside_stripped {w u : Validator} (h : u ∈ w.stripped.inside) :
    u.wrapper? = none := by
  have hdropped := not_dropped_of_mem_inside_without h
  cases hu : u.wrapper? with
  | none => rfl
  | some t => simp [dropped, hu] at hdropped

theorem spyNames_stripped (w : Validator) : w.stripped.spyNames = [] := by
  refine List.filterMap_eq_nil_iff.2 fun u hu => ?_
  have hu := wrapper?_of_mem_inside_stripped hu
  cases u <;> first | rfl | cases hu

end Validator

/-! ## Signals that are not heard -/

/-- Is it a call, and not under one of these names? -/
def Signal.isCallBut (names : List String) : Signal → Bool
  | .call name _ => name ∉ names
  | .rejection _ => false

namespace Run

/-- The run for who hears only these signals. -/
def heard (keep : Signal → Bool) (r : Run) : Run := { r with log := r.log.filter keep }

variable {keep : Signal → Bool}

theorem accepted_heard (keep : Signal → Bool) (r : Run) :
    (r.heard keep).accepted = r.accepted := rfl

theorem heard_all (r : Run) : r.heard (fun _ => true) = r := by
  simp [heard]

theorem calls_heard_isCallBut (names : List String) (r : Run) :
    (r.heard (Signal.isCallBut names)).log.calls =
      r.log.calls.filter fun c => c.1 ∉ names := by
  rw [heard, Log.calls, Log.calls, List.filterMap_filter, List.filter_filterMap]
  refine List.filterMap_congr fun signal _ => ?_
  cases signal with
  | call name seen => by_cases h : name ∈ names <;> simp [Signal.isCallBut, Option.filter, h]
  | rejection seen => rfl

theorem heard_after (signal : Signal) (r : Run) : (r.after signal).heard keep =
    if keep signal then (r.heard keep).after signal else r.heard keep := by
  cases h : keep signal <;> simp [heard, after, h]

theorem heard_asserted (seen : Kind) (r : Run) : (r.asserted seen).heard keep =
    if keep (.rejection seen) then (r.heard keep).asserted seen else r.heard keep := by
  cases h : keep (.rejection seen) <;> cases hr : r.accepted <;> simp [heard, asserted, h, hr]

end Run

namespace Connective

variable {keep : Signal → Bool}

theorem heard_next (c : Connective) (r : Run) (f : Unit → Run) :
    (c.next r f).heard keep = c.next (r.heard keep) fun _ => (f ()).heard keep := by
  by_cases h : r.accepted = c.neutral
  · have hheard : (r.heard keep).accepted = c.neutral := h
    rw [next_of_accepted_eq h, next_of_accepted_eq hheard]
    simp [Run.heard]
  · have hheard : (r.heard keep).accepted ≠ c.neutral := h
    rw [next_of_accepted_ne h, next_of_accepted_ne hheard]

/-- Where to stop is decided by verdicts, whatever is heard. -/
theorem heard_runs (c : Connective) (rs : List Run) :
    (c.runs rs).heard keep = c.runs (rs.map (Run.heard keep)) := by
  induction rs with
  | nil => rfl
  | cons r rs ih => rw [runs, heard_next, ih]; rfl

theorem heard_next_congr (c : Connective) {r s : Run} {f g : Unit → Run}
    (hr : r.heard keep = s.heard keep) (hf : (f ()).heard keep = (g ()).heard keep) :
    (c.next r f).heard keep = (c.next s g).heard keep := by
  rw [heard_next, heard_next, hr, hf]

theorem heard_runs_map_congr (c : Connective) {α : Type} {xs : List α} {f g : α → Run}
    (h : ∀ x ∈ xs, (f x).heard keep = (g x).heard keep) :
    (c.runs (xs.map f)).heard keep = (c.runs (xs.map g)).heard keep := by
  rw [heard_runs, heard_runs, List.map_map, List.map_map]
  exact congrArg c.runs (List.map_congr_left h)

end Connective

namespace Validator

variable {drop : Wrapper → Bool} {keep : Signal → Bool} {w : Validator}

/-- If it is a wrapper that is dropped, it is not heard. -/
def Unheard (drop : Wrapper → Bool) (keep : Signal → Bool) (u : Validator) : Prop :=
  ∀ t, u.wrapper? = some t → drop t = true → ∀ signal, t.signals signal = true →
    keep signal = false

theorem heard_run_of_kind_ne {u w : Validator} {k : Kind} (hu : u.container? = some k)
    (hw : w.container? = some k) {v : Value} (hv : v.kind ≠ k) :
    (u.run v).heard keep = (w.run v).heard keep := by
  rw [run_of_kind_ne hu hv, run_of_kind_ne hw hv]

/-- **Who does not hear the dropped wrappers does not notice that they are gone.** -/
theorem heard_run_without (h : ∀ u ∈ w.inside, Unheard drop keep u) (v : Value) :
    ((w.without drop).run v).heard keep = (w.run v).heard keep := by
  induction w using Validator.induction generalizing v with
  | object w ih =>
    have hp := (forall_mem_inside_iff.1 h).2
    have ih := ih (hp w List.mem_cons_self)
    cases v with
    | object tag entries =>
      rw [without, run_object, run_object]
      exact Connective.heard_runs_map_congr .and fun e _ => ih e.2
    | _ => exact heard_run_of_kind_ne rfl rfl nofun
  | array w ih =>
    have hp := (forall_mem_inside_iff.1 h).2
    have ih := ih (hp w List.mem_cons_self)
    cases v with
    | array tag elements =>
      rw [without, run_array, run_array]
      exact Connective.heard_runs_map_congr .and fun u _ => ih u
    | _ => exact heard_run_of_kind_ne rfl rfl nofun
  | record fields ih =>
    have hp := (forall_mem_inside_iff.1 h).2
    by_cases hv : v.kind = .object
    · rw [without, run_record _ hv, run_record _ hv, withoutFields_eq_map, List.map_map]
      refine Connective.heard_runs_map_congr .and fun f hf => ?_
      exact ih f hf (hp f.2 (List.mem_map_of_mem hf)) _
    · exact heard_run_of_kind_ne rfl rfl hv
  | tuple items ih =>
    have hp := (forall_mem_inside_iff.1 h).2
    by_cases hv : v.kind = .array
    · rw [without, run_tuple _ hv, run_tuple _ hv, Connective.heard_runs, Connective.heard_runs,
        withoutAll_eq_map]
      refine congrArg _ (List.ext_getElem? fun i => ?_)
      rw [List.getElem?_map, List.getElem?_map, List.getElem?_mapIdx, List.getElem?_mapIdx,
        List.getElem?_map]
      cases hi : items[i]? with
      | none => rfl
      | some u =>
        have hu : u ∈ items := List.mem_of_getElem? hi
        exact congrArg some (ih u hu (hp u hu) (v.item i))
    · exact heard_run_of_kind_ne rfl rfl hv
  | any members ih =>
    have hp := (forall_mem_inside_iff.1 h).2
    rw [without, run_any, run_any, withoutAll_eq_map, List.map_map]
    exact Connective.heard_runs_map_congr .or fun u hu => ih u hu (hp u hu) v
  | all members ih =>
    have hp := (forall_mem_inside_iff.1 h).2
    rw [without, run_all, run_all, withoutAll_eq_map, List.map_map]
    exact Connective.heard_runs_map_congr .and fun u hu => ih u hu (hp u hu) v
  | or left right ihl ihr =>
    have hp := (forall_mem_inside_iff.1 h).2
    have hl := ihl (hp left (by simp [parts])) v
    have hr := ihr (hp right (by simp [parts])) v
    rw [without]
    exact Connective.heard_next_congr .or hl hr
  | and left right ihl ihr =>
    have hp := (forall_mem_inside_iff.1 h).2
    have hl := ihl (hp left (by simp [parts])) v
    have hr := ihr (hp right (by simp [parts])) v
    rw [without]
    exact Connective.heard_next_congr .and hl hr
  | boxed w ih =>
    have hp := (forall_mem_inside_iff.1 h).2
    have ih := ih (hp w List.mem_cons_self) v
    rw [without]
    split
    · exact ih
    · exact ih
  | asserting w ih =>
    obtain ⟨hw, hp⟩ := forall_mem_inside_iff.1 h
    rw [without, run, Run.heard_asserted, ← ih (hp w List.mem_cons_self) v]
    split
    · rw [hw .asserting rfl ‹_› (.rejection v.kind) rfl]
      rfl
    · rw [run, Run.heard_asserted]
  | spy name w ih =>
    obtain ⟨hw, hp⟩ := forall_mem_inside_iff.1 h
    rw [without, run, Run.heard_after, ← ih (hp w List.mem_cons_self) v]
    split
    · rw [hw (.spy name) rfl ‹_› (.call name v.kind) (decide_eq_true rfl)]
      rfl
    · rw [run, Run.heard_after]
  | _ => rfl

/-- Verdicts are the same for who hears nothing. -/
theorem accepts_without (drop : Wrapper → Bool) (w : Validator) (v : Value) :
    (w.without drop).accepts v = w.accepts v := by
  have h : ∀ u ∈ w.inside, Unheard drop (fun _ => false) u := fun _ _ _ _ _ _ _ => rfl
  rw [accepts, ← Run.accepted_heard fun _ => false, heard_run_without h, Run.accepted_heard]
  rfl

/-- A handle signals nothing, so everything is heard without it. -/
theorem unheard_boxed (u : Validator) : Unheard (· = .boxed) (fun _ => true) u := by
  intro t _ ht signal hs
  cases of_decide_eq_true ht
  cases hs

theorem run_unboxed (w : Validator) (v : Value) : w.unboxed.run v = w.run v := by
  have h := heard_run_without (fun u (_ : u ∈ w.inside) => unheard_boxed u) v
  rwa [Run.heard_all, Run.heard_all] at h

theorem events_run_stripped (w : Validator) (v : Value) : (w.stripped.run v).log.events = [] := by
  refine events_eq_nil (throughout_of_forall_mem_inside fun u hu => ?_) v
  have hu := wrapper?_of_mem_inside_stripped hu
  cases u <;> first | rfl | cases hu

/-! ## Who makes the calls -/

/-- The name under which a validator records its own calls. -/
def probeName? (w : Validator) : Option String := w.stubName?.or w.spyName?

theorem call_mark_visit (w : Validator) (v : Value) :
    (w.visit v).mark.call = w.probeName? := by
  cases w <;> rw [visit] <;> first | rfl | (split <;> rfl)

/-- Calls are made by the stubs and spies that are inside. -/
theorem exists_probe_of_mem_calls {w : Validator} {v : Value} {c : String × Kind}
    (h : c ∈ (w.run v).log.calls) : ∃ u ∈ w.inside, u.probeName? = some c.1 := by
  rw [calls_run, Visit.calls] at h
  obtain ⟨p, hp, hc⟩ := List.mem_filterMap.1 h
  obtain ⟨u, hu, hm⟩ := mark_of_mem_visits ((Visit.visits_pruned_sublist _).subset hp)
  obtain ⟨name, hname, rfl⟩ := Option.map_eq_some_iff.1 hc
  exact ⟨u, mem_inside_of_part? hu, by rw [← hname, hm, call_mark_visit]⟩

theorem mem_names_of_mem_calls {w : Validator} {v : Value} {c : String × Kind}
    (h : c ∈ (w.run v).log.calls) : c.1 ∈ w.stubNames ∨ c.1 ∈ w.spyNames := by
  obtain ⟨u, hu, hname⟩ := exists_probe_of_mem_calls h
  rcases Option.or_eq_some_iff.1 hname with hname | ⟨-, hname⟩
  · exact .inl (List.mem_filterMap.2 ⟨u, hu, hname⟩)
  · exact .inr (List.mem_filterMap.2 ⟨u, hu, hname⟩)

/-- Without wrappers the calls of the stubs are left, in their order. -/
theorem calls_run_stripped {w : Validator} (h : w.spyNames.Disjoint w.stubNames) (v : Value) :
    (w.stripped.run v).log.calls =
      (w.run v).log.calls.filter fun c => c.1 ∉ w.spyNames := by
  have hunheard : ∀ u ∈ w.inside, Unheard (fun _ => true) (Signal.isCallBut w.spyNames) u := by
    intro u hu t ht _ signal hs
    cases t with
    | boxed => cases hs
    | asserting =>
      cases signal with
      | call name seen => cases hs
      | rejection seen => rfl
    | spy name =>
      cases signal with
      | call name' seen =>
        obtain rfl : name = name' := of_decide_eq_true hs
        have hspy : u.spyName? = some name := by
          cases u <;> first | (cases ht; rfl) | cases ht
        exact decide_eq_false (not_not_intro (List.mem_filterMap.2 ⟨u, hu, hspy⟩))
      | rejection seen => cases hs
  have hheard : ∀ c ∈ (w.stripped.run v).log.calls, c.1 ∉ w.spyNames := by
    intro c hc
    have hstub : c.1 ∈ w.stubNames := by
      rcases mem_names_of_mem_calls hc with hc | hc
      · rwa [stripped, stubNames_without] at hc
      · rw [spyNames_stripped] at hc
        cases hc
    exact fun hspy => h hspy hstub
  calc (w.stripped.run v).log.calls
    _ = (w.stripped.run v).log.calls.filter fun c => c.1 ∉ w.spyNames :=
      (List.filter_eq_self.2 fun c hc => decide_eq_true (hheard c hc)).symm
    _ = ((w.stripped.run v).heard (Signal.isCallBut w.spyNames)).log.calls :=
      (Run.calls_heard_isCallBut _ _).symm
    _ = ((w.run v).heard (Signal.isCallBut w.spyNames)).log.calls := by
      rw [stripped, heard_run_without hunheard v]
    _ = (w.run v).log.calls.filter fun c => c.1 ∉ w.spyNames := Run.calls_heard_isCallBut _ _

/-! ## Handles that are put in -/

section Handles

variable (h : drop .boxed = true)
include h

theorem without_boxed (w : Validator) : (boxed w).without drop = w.without drop := by
  rw [without, if_pos h]

theorem withoutAll_boxed (ws : List Validator) :
    withoutAll drop (ws.map boxed) = withoutAll drop ws := by
  rw [withoutAll_eq_map, withoutAll_eq_map, List.map_map]
  exact List.map_congr_left fun w _ => without_boxed h w

theorem without_record_boxed (pairs : List (String × Validator)) :
    (RecordSchema.ofPairs (pairs.map fun p => (p.1, boxed p.2))).toValidator.without drop =
      (RecordSchema.ofPairs pairs).toValidator.without drop := by
  rw [RecordSchema.toValidator_ofPairs, RecordSchema.toValidator_ofPairs, Entries.ofPairs_map,
    without, withoutFields_eq_map, List.map_map, without, withoutFields_eq_map]
  exact congrArg record (List.map_congr_left fun f _ => congrArg (f.1, ·) (without_boxed h f.2))

theorem without_iterate_boxed (n : Nat) (w : Validator) :
    (boxed^[n] w).without drop = w.without drop := by
  induction n with
  | zero => rfl
  | succ n ih => rw [Function.iterate_succ_apply', without_boxed h, ih]

end Handles

theorem run_iterate_boxed (n : Nat) (w : Validator) (v : Value) :
    (boxed^[n] w).run v = w.run v := by
  rw [← run_unboxed (boxed^[n] w), unboxed, without_iterate_boxed rfl n w]
  exact run_unboxed w v

/-- Wrappers are transparent. Taking off all wrappers changes no verdict and leaves no event. If no
spy shares its name with a stub, the calls that are left are those of the stubs, in their order.
Taking off the handles alone changes nothing, however many there are, and the same holds of the
handles around the parts of schemas and of `any` and `all`. In general, whichever wrappers are taken
off, who cannot hear their signals does not notice. -/
structure Transparent : Prop where
  accepts : ∀ (w : Validator) v, w.stripped.accepts v = w.accepts v
  events : ∀ (w : Validator) v, (w.stripped.run v).log.events = []
  calls : ∀ (w : Validator) v, w.spyNames.Disjoint w.stubNames →
    (w.stripped.run v).log.calls = (w.run v).log.calls.filter fun c => c.1 ∉ w.spyNames
  unboxed : ∀ (w : Validator) v, w.unboxed.run v = w.run v
  inside : ∀ drop (w : Validator), (w.without drop).inside =
    (w.inside.filter fun u => !u.dropped drop).map (without drop)
  wrap : ∀ drop (t : Wrapper) (w : Validator), (t.wrap w).without drop =
    if drop t then w.without drop else t.wrap (w.without drop)
  nested_unboxed : ∀ n (w : Validator), (boxed^[n] w).unboxed = w.unboxed
  nested_stripped : ∀ n (w : Validator), (boxed^[n] w).stripped = w.stripped
  nested_run : ∀ n (w : Validator) v, (boxed^[n] w).run v = w.run v
  fields : ∀ drop, drop .boxed = true → ∀ pairs,
    (RecordSchema.ofPairs (pairs.map fun p => (p.1, boxed p.2))).toValidator.without drop =
      (RecordSchema.ofPairs pairs).toValidator.without drop
  items : ∀ drop, drop .boxed = true → ∀ items,
    (TupleSchema.ofList (items.map boxed)).toValidator.without drop =
      (TupleSchema.ofList items).toValidator.without drop
  members : ∀ drop, drop .boxed = true → ∀ items,
    (any (items.map boxed)).without drop = (any items).without drop ∧
      (all (items.map boxed)).without drop = (all items).without drop
  unheard : ∀ drop keep (w : Validator), (∀ u ∈ w.inside, Unheard drop keep u) → ∀ v,
    ((w.without drop).run v).heard keep = (w.run v).heard keep

/-- **Wrappers are transparent.** -/
theorem wrappers_are_transparent : Transparent where
  accepts w v := accepts_without _ w v
  events := events_run_stripped
  calls _ v h := calls_run_stripped h v
  unboxed := run_unboxed
  inside _ := inside_without
  wrap _ := without_wrap
  nested_unboxed := without_iterate_boxed rfl
  nested_stripped := without_iterate_boxed rfl
  nested_run := run_iterate_boxed
  fields _ h pairs := without_record_boxed h pairs
  items _ h items := congrArg tuple (withoutAll_boxed h items)
  members _ h items :=
    ⟨congrArg any (withoutAll_boxed h items), congrArg all (withoutAll_boxed h items)⟩
  unheard _ _ _ h v := heard_run_without h v

/-- A handle to a stub with a spy, and an asserted stub that rejects. -/
def instrumented : Validator :=
  .all [.boxed (.spy "spy" (.stub "yes" true)), .asserting (.stub "no" false)]

theorem wrappers_are_transparent_instrumented :
    instrumented.spyNames.Disjoint instrumented.stubNames ∧
    (instrumented.run .null).log =
      [.call "spy" .null, .call "yes" .null, .call "no" .null, .rejection .null] ∧
    (instrumented.stripped.run .null).log.calls = [("yes", .null), ("no", .null)] ∧
    (any [.boxed instrumented]).unboxed = (any [instrumented]).unboxed ∧
    (∀ u ∈ instrumented.inside, Unheard (· = .boxed) (fun _ => true) u) ∧
    (instrumented.unboxed.run .null).heard (fun _ => true) =
      (instrumented.run .null).heard fun _ => true := by
  have hdisjoint : instrumented.spyNames.Disjoint instrumented.stubNames :=
    List.disjoint_iff_ne.2 (by decide)
  have hunheard : ∀ u ∈ instrumented.inside, Unheard (· = .boxed) (fun _ => true) u :=
    fun u _ => unheard_boxed u
  refine ⟨hdisjoint, rfl, ?_, (wrappers_are_transparent.members _ rfl [instrumented]).1, hunheard,
    wrappers_are_transparent.unheard _ _ instrumented hunheard .null⟩
  rw [wrappers_are_transparent.calls instrumented .null hdisjoint]
  rfl

end Validator

end ShapeCheck
