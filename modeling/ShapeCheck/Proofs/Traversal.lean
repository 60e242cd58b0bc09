import ShapeCheck.Proofs.Verdict
import ShapeCheck.Proofs.Visit
/-!
# The order of evaluation

`Validator.visit` is the full traversal: every part of a validator is asked, from left to right,
whatever the others say. Main theorem `calls_run_exact`: the calls of a run are those of the full
traversal after pruning, so that no part is asked after the one that decides, nothing is asked twice
at one site, and asking again gives the same calls again.
-/
namespace ShapeCheck

namespace Value

/-- What a step leads to: `undefined` where it leads nowhere. -/
def follow (v : Value) : Step → Value
  | .place n => v.parts.getD n .undefined
  | .key k => v.field k

/-- The value after a step, or the same one if there is none. -/
def turn (v : Value) : Option Step → Value
  | none => v
  | some step => v.follow step

/-- The value at a position. -/
def followAll (v : Value) (position : List Step) : Value := position.foldl follow v

end Value

namespace Visit

/-- A visit that answers without asking others. -/
def leaf (v : Value) (accepts : Bool) : Visit :=
  .mk { seen := v.kind, joint := .answer accepts } []

/-- A visit to each stored value, by its place. -/
@[simp] def places (ask : Value → Visit) : List Value → Nat → List (Turn × Visit)
  | [], _ => []
  | v :: vs, n => (⟨0, some (.place n)⟩, ask v) :: places ask vs (n + 1)

end Visit

namespace Validator

open Visit

mutual

/-- The visit of a validator to a value with the visits of all its parts. A container or a schema
on a value of another kind has no part to ask. -/
@[simp] def visit : Validator → Value → Visit
  | .boolean, v => leaf v (v.kind = .bool)
  | .string, v => leaf v (v.kind = .string)
  | .number, v => leaf v (v.kind = .number)
  | .empty, v => leaf v (v.kind = .undefined)
  | .nil, v => leaf v (v.kind = .null)
  | .literal expected, v => leaf v (v.strictEq expected)
  | .host type, v => leaf v (v.asHost?.any fun h => decide (h.type.id = type.id))
  | .rule r, v => leaf v (r.accepts v)
  | .closure accepts, v => leaf v (accepts v)
  | .object inner, v =>
    if v.kind = .object then
      .mk { seen := v.kind, joint := .every } (places (visit inner) v.parts 0)
    else leaf v false
  | .array inner, v =>
    if v.kind = .array then
      .mk { seen := v.kind, joint := .every } (places (visit inner) v.parts 0)
    else leaf v false
  | .record fields, v =>
    if v.kind = .object then .mk { seen := v.kind, joint := .every } (visitFields fields v 0)
    else leaf v false
  | .tuple items, v =>
    if v.kind = .array then
      .mk { seen := v.kind, joint := .every } (visitParts (some ∘ .place) items v 0)
    else leaf v false
  | .any members, v =>
    .mk { seen := v.kind, joint := .some } (visitParts (fun _ => none) members v 0)
  | .all members, v =>
    .mk { seen := v.kind, joint := .every } (visitParts (fun _ => none) members v 0)
  | .or left right, v =>
    .mk { seen := v.kind, joint := .some } [(⟨0, none⟩, visit left v), (⟨1, none⟩, visit right v)]
  | .and left right, v =>
    .mk { seen := v.kind, joint := .every } [(⟨0, none⟩, visit left v), (⟨1, none⟩, visit right v)]
  | .boxed inner, v => .mk { seen := v.kind, joint := .every } [(⟨0, none⟩, visit inner v)]
  | .asserting inner, v =>
    .mk { seen := v.kind, joint := .every, asserts := true } [(⟨0, none⟩, visit inner v)]
  | .stub name answer, v => .mk { seen := v.kind, joint := .answer answer, call := name } []
  | .spy name inner, v =>
    .mk { seen := v.kind, joint := .every, call := name } [(⟨0, none⟩, visit inner v)]

/-- Each field on the value at its key. -/
@[simp] def visitFields : List (String × Validator) → Value → Nat → List (Turn × Visit)
  | [], _, _ => []
  | (key, w) :: fields, v, n =>
    (⟨n, some (.key key)⟩, visit w (v.field key)) :: visitFields fields v (n + 1)

/-- Each part on the value where it aims. -/
@[simp] def visitParts (aim : Nat → Option Step) :
    List Validator → Value → Nat → List (Turn × Visit)
  | [], _, _ => []
  | w :: ws, v, n => (⟨n, aim n⟩, visit w (v.turn (aim n))) :: visitParts aim ws v (n + 1)

end

end Validator

/-! ## A run is a pruned traversal -/

namespace Visit

/-- What evaluation makes of a visit: its verdict, and the log of what pruning leaves. -/
def result (c : Visit) : Run := ⟨c.verdict, c.pruned.log⟩

/-- The same for the parts of a visit. -/
def resultBelow (joint : Joint) (below : List (Turn × Visit)) : Run :=
  ⟨joint.verdict (verdicts below), logBelow (prunedBelow joint below)⟩

theorem resultBelow_some_cons (turn : Turn) (c : Visit) (cs : List (Turn × Visit)) :
    resultBelow .some ((turn, c) :: cs) = c.result.orElse fun _ => resultBelow .some cs := by
  cases h : c.verdict <;> simp [resultBelow, result, Run.orElse, Joint.verdict, Joint.settledBy, h]

theorem resultBelow_every_cons (turn : Turn) (c : Visit) (cs : List (Turn × Visit)) :
    resultBelow .every ((turn, c) :: cs) = c.result.andThen fun _ => resultBelow .every cs := by
  cases h : c.verdict <;>
    simp [resultBelow, result, Run.andThen, Joint.verdict, Joint.settledBy, h]

/-- The only part that must accept decides. -/
theorem resultBelow_every_single (turn : Turn) (c : Visit) :
    resultBelow .every [(turn, c)] = c.result := by
  rw [resultBelow_every_cons]
  cases h : c.verdict <;> simp [resultBelow, result, Run.andThen, Joint.verdict, h]

/-- A visit that is neither a call nor an assertion adds nothing to its parts. -/
theorem result_mk (seen : Kind) (joint : Joint) (below : List (Turn × Visit)) :
    (Visit.mk { seen, joint } below).result = resultBelow joint below := by
  simp [result, resultBelow, Mark.opening, Mark.closing]

theorem result_leaf (v : Value) (accepts : Bool) : (leaf v accepts).result = .silent accepts := by
  simp [leaf, result_mk, resultBelow, Joint.verdict, Run.silent]

theorem result_call (seen : Kind) (name : String) (joint : Joint) (below : List (Turn × Visit)) :
    (Visit.mk { seen, joint, call := name } below).result =
      (resultBelow joint below).after (.call name seen) := by
  simp [result, resultBelow, Run.after, Mark.opening, Mark.closing]

theorem result_asserted (seen : Kind) (c : Visit) (turn : Turn) :
    (Visit.mk { seen, joint := .every, asserts := true } [(turn, c)]).result =
      c.result.asserted seen := by
  cases h : c.verdict <;>
    simp [result, Run.asserted, Mark.opening, Mark.closing, Joint.verdict, verdict_pruned, h]

theorem every_eq_resultBelow (check : Value → Run) (ask : Value → Visit)
    (h : ∀ v, check v = (ask v).result) (vs : List Value) (n : Nat) :
    Run.every check vs = resultBelow .every (places ask vs n) := by
  induction vs generalizing n with
  | nil => rfl
  | cons v vs ih => rw [Run.every, ih (n + 1), h v, places, resultBelow_every_cons]

end Visit

namespace Validator

open Visit

theorem runFields_eq (fields : List (String × Validator)) (tag : Tag) (entries : Entries Value)
    (ih : ∀ f ∈ fields, ∀ v, f.2.run v = (f.2.visit v).result) (n : Nat) :
    runFields fields entries =
      resultBelow .every (visitFields fields (.object tag entries) n) := by
  induction fields generalizing n with
  | nil => rfl
  | cons f fs ihf =>
    obtain ⟨key, w⟩ := f
    obtain ⟨hw, ih⟩ := List.forall_mem_cons.1 ih
    rw [runFields, visitFields, resultBelow_every_cons, ihf ih (n + 1), hw]
    rfl

/-- Walking along the elements is looking each up at its index. -/
theorem runItems_eq (items : List Validator) (tag : Tag) (elements : List Value)
    (ih : ∀ w ∈ items, ∀ v, w.run v = (w.visit v).result) (n : Nat) :
    runItems items (elements.drop n) =
      resultBelow .every (visitParts (some ∘ .place) items (.array tag elements) n) := by
  induction items generalizing n with
  | nil => rfl
  | cons w ws ihw =>
    obtain ⟨hw, ih⟩ := List.forall_mem_cons.1 ih
    have hhead : (elements.drop n).headD .undefined = elements.getD n .undefined := by
      rw [List.headD_eq_head?_getD, List.head?_drop, List.getD_eq_getElem?_getD]
    rw [runItems, visitParts, resultBelow_every_cons, List.tail_drop, ihw ih (n + 1), hhead, hw]
    rfl

theorem runAny_eq (members : List Validator) (v : Value)
    (ih : ∀ w ∈ members, ∀ v, w.run v = (w.visit v).result) (n : Nat) :
    runAny members v = resultBelow .some (visitParts (fun _ => none) members v n) := by
  induction members generalizing n with
  | nil => rfl
  | cons w ws ihw =>
    obtain ⟨hw, ih⟩ := List.forall_mem_cons.1 ih
    rw [runAny, visitParts, resultBelow_some_cons, ihw ih (n + 1), hw]
    rfl

theorem runAll_eq (members : List Validator) (v : Value)
    (ih : ∀ w ∈ members, ∀ v, w.run v = (w.visit v).result) (n : Nat) :
    runAll members v = resultBelow .every (visitParts (fun _ => none) members v n) := by
  induction members generalizing n with
  | nil => rfl
  | cons w ws ihw =>
    obtain ⟨hw, ih⟩ := List.forall_mem_cons.1 ih
    rw [runAll, visitParts, resultBelow_every_cons, ihw ih (n + 1), hw]
    rfl

/-- The kind of the values that a container or a schema looks into. -/
def container? : Validator → Option Kind
  | .object _ | .record _ => some .object
  | .array _ | .tuple _ => some .array
  | _ => none

/-- On a value of another kind nothing is asked. -/
theorem visit_of_kind_ne {w : Validator} {k : Kind} (hw : w.container? = some k) {v : Value}
    (hv : v.kind ≠ k) : w.visit v = leaf v false := by
  cases w <;> cases hw <;> exact if_neg hv

theorem run_of_kind_ne {w : Validator} {k : Kind} (hw : w.container? = some k) {v : Value}
    (hv : v.kind ≠ k) : w.run v = .silent false := by
  cases w <;> cases hw <;> cases v <;> first | rfl | exact absurd rfl hv

theorem run_eq_result_of_kind_ne {w : Validator} {k : Kind} (hw : w.container? = some k)
    {v : Value} (hv : v.kind ≠ k) : w.run v = (w.visit v).result := by
  rw [run_of_kind_ne hw hv, visit_of_kind_ne hw hv, result_leaf]

/-- **A run is the full traversal, pruned.** -/
theorem run_eq_result (w : Validator) (v : Value) : w.run v = (w.visit v).result := by
  induction w using Validator.induction generalizing v with
  | boolean | string | number | empty | nil => rw [run, visit, result_leaf]
  | literal | rule | closure => rw [run, visit, result_leaf]
  | host type => cases v <;> simp [result_leaf, Value.asHost?]
  | object w ih =>
    cases v with
    | object tag entries =>
      have hk : (Value.object tag entries).kind = .object := rfl
      rw [run, visit, if_pos hk, result_mk]
      exact every_eq_resultBelow _ _ ih _ 0
    | _ => exact run_eq_result_of_kind_ne rfl (by simp [Value.kind])
  | array w ih =>
    cases v with
    | array tag elements =>
      have hk : (Value.array tag elements).kind = .array := rfl
      rw [run, visit, if_pos hk, result_mk]
      exact every_eq_resultBelow _ _ ih _ 0
    | _ => exact run_eq_result_of_kind_ne rfl (by simp [Value.kind])
  | record fields ih =>
    cases v with
    | object tag entries =>
      have hk : (Value.object tag entries).kind = .object := rfl
      rw [run, visit, if_pos hk, result_mk]
      exact runFields_eq fields tag entries ih 0
    | _ => exact run_eq_result_of_kind_ne rfl (by simp [Value.kind])
  | tuple items ih =>
    cases v with
    | array tag elements =>
      have hk : (Value.array tag elements).kind = .array := rfl
      rw [run, visit, if_pos hk, result_mk]
      exact runItems_eq items tag elements ih 0
    | _ => exact run_eq_result_of_kind_ne rfl (by simp [Value.kind])
  | any members ih => rw [run, visit, result_mk, runAny_eq members v ih 0]
  | all members ih => rw [run, visit, result_mk, runAll_eq members v ih 0]
  | or left right ihl ihr =>
    rw [run, visit, result_mk, resultBelow_some_cons, resultBelow_some_cons, ← ihl, ← ihr]
    cases hl : (run left v).accepted <;> cases hr : (run right v).accepted <;>
      simp [Run.orElse, hl, hr, resultBelow, Joint.verdict]
  | and left right ihl ihr =>
    rw [run, visit, result_mk, resultBelow_every_cons, resultBelow_every_single, ← ihl, ← ihr]
  | boxed w ih => rw [run, visit, result_mk, resultBelow_every_single, ih]
  | asserting w ih => rw [run, visit, result_asserted, ih]
  | stub name answer => rw [run, visit, result_call]; rfl
  | spy name w ih => rw [run, visit, result_call, resultBelow_every_single, ih]

end Validator

/-! ## Where the parts of a visit are

`mem_parts_visit`, `length_parts_visit` and `before_parts_visit` say all about the visits right
below a visit: they are of parts, there is one for each, and they come from left to right. What
holds at every depth follows by induction on parts. -/

namespace Visit

theorem places_eq_mapIdx (ask : Value → Visit) (vs : List Value) (n : Nat) :
    places ask vs n = vs.mapIdx fun i v => (⟨0, some (.place (n + i))⟩, ask v) := by
  induction vs generalizing n with
  | nil => rfl
  | cons v vs ih =>
    rw [places, ih, List.mapIdx_cons]
    simp only [Nat.add_zero, Nat.add_assoc, Nat.add_comm 1]

/-- Numbered from left to right, they come from left to right. -/
theorem pairwise_mapIdx {α : Type} {f : Nat → α → Turn × Visit}
    (h : ∀ i j a b, i < j → (f i a).1.Before (f j b).1) (xs : List α) :
    (xs.mapIdx f).Pairwise fun a b => a.1.Before b.1 := by
  rw [List.pairwise_iff_getElem]
  intro i j hi hj hij
  rw [List.getElem_mapIdx, List.getElem_mapIdx]
  exact h i j _ _ hij

end Visit

namespace Validator

open Visit

theorem visitFields_eq_mapIdx (fields : List (String × Validator)) (v : Value) (n : Nat) :
    visitFields fields v n =
      fields.mapIdx fun i f => (⟨n + i, some (.key f.1)⟩, f.2.visit (v.field f.1)) := by
  induction fields generalizing n with
  | nil => rfl
  | cons f fs ih =>
    rw [visitFields, ih, List.mapIdx_cons]
    simp only [Nat.add_zero, Nat.add_assoc, Nat.add_comm 1]

theorem visitParts_eq_mapIdx (aim : Nat → Option Step) (ws : List Validator) (v : Value)
    (n : Nat) :
    visitParts aim ws v n =
      ws.mapIdx fun i w => (⟨n + i, aim (n + i)⟩, w.visit (v.turn (aim (n + i)))) := by
  induction ws generalizing n with
  | nil => rfl
  | cons w ws ih =>
    rw [visitParts, ih, List.mapIdx_cons]
    simp only [Nat.add_zero, Nat.add_assoc, Nat.add_comm 1]

/-- Right below the visit of a validator are visits of its parts, each to the value where its turn
leads. -/
theorem mem_parts_visit {w : Validator} {v : Value} {b : Turn × Visit}
    (h : b ∈ (w.visit v).parts) :
    ∃ u, w.parts[b.1.part]? = some u ∧ b.2 = u.visit (v.turn b.1.step) := by
  cases w with
  | object w | array w =>
    rw [visit] at h
    split at h
    · rw [Visit.parts, places_eq_mapIdx, List.mem_mapIdx] at h
      obtain ⟨i, hi, rfl⟩ := h
      refine ⟨w, rfl, ?_⟩
      simp [Value.turn, Value.follow, List.getD_eq_getElem?_getD, hi]
    · cases h
  | record fields =>
    rw [visit] at h
    split at h
    · rw [Visit.parts, visitFields_eq_mapIdx, List.mem_mapIdx] at h
      obtain ⟨i, hi, rfl⟩ := h
      exact ⟨fields[i].2, by simp [parts, hi], rfl⟩
    · cases h
  | tuple items =>
    rw [visit] at h
    split at h
    · rw [Visit.parts, visitParts_eq_mapIdx, List.mem_mapIdx] at h
      obtain ⟨i, hi, rfl⟩ := h
      exact ⟨items[i], by simp [parts, hi], rfl⟩
    · cases h
  | any members | all members =>
    rw [visit, Visit.parts, visitParts_eq_mapIdx, List.mem_mapIdx] at h
    obtain ⟨i, hi, rfl⟩ := h
    exact ⟨members[i], by simp [parts, hi], rfl⟩
  | or left right | and left right =>
    rw [visit] at h
    simp only [Visit.parts, List.mem_cons, List.not_mem_nil, or_false] at h
    rcases h with rfl | rfl
    · exact ⟨left, rfl, rfl⟩
    · exact ⟨right, rfl, rfl⟩
  | boxed w | asserting w | spy name w =>
    rw [visit] at h
    cases List.mem_singleton.1 h
    exact ⟨w, rfl, rfl⟩
  | _ => rw [visit] at h; cases h

/-- How many visits there are right below one: a container asks once for each stored value, all
others once for each part. -/
def width : Validator → Value → Nat
  | .object _, v => v.parts.length
  | .array _, v => v.parts.length
  | w, _ => w.parts.length

/-- No part is left out. -/
theorem length_parts_visit {w : Validator} {v : Value}
    (hv : ∀ k, w.container? = some k → v.kind = k) :
    (w.visit v).parts.length = w.width v := by
  cases w with
  | object w =>
    rw [visit, if_pos (hv _ rfl), Visit.parts, places_eq_mapIdx, List.length_mapIdx]
    rfl
  | array w =>
    rw [visit, if_pos (hv _ rfl), Visit.parts, places_eq_mapIdx, List.length_mapIdx]
    rfl
  | record fields =>
    rw [visit, if_pos (hv _ rfl), Visit.parts, visitFields_eq_mapIdx, List.length_mapIdx]
    exact (List.length_map Prod.snd).symm
  | tuple items =>
    rw [visit, if_pos (hv _ rfl), Visit.parts, visitParts_eq_mapIdx, List.length_mapIdx]
    rfl
  | any members | all members =>
    rw [visit, Visit.parts, visitParts_eq_mapIdx, List.length_mapIdx]
    rfl
  | _ => rfl

/-- Parts come from left to right. -/
theorem before_parts_visit (w : Validator) (v : Value) :
    (w.visit v).parts.Pairwise fun a b => a.1.Before b.1 := by
  cases w with
  | object w | array w =>
    rw [visit]
    split
    · rw [Visit.parts, places_eq_mapIdx]
      apply pairwise_mapIdx
      intro i j a b hij
      exact .inr ⟨0 + i, 0 + j, rfl, rfl, by omega⟩
    · exact .nil
  | record fields =>
    rw [visit]
    split
    · rw [Visit.parts, visitFields_eq_mapIdx]
      apply pairwise_mapIdx
      intro i j f g hij
      exact .inl (Nat.add_lt_add_left hij 0)
    · exact .nil
  | tuple items =>
    rw [visit]
    split
    · rw [Visit.parts, visitParts_eq_mapIdx]
      apply pairwise_mapIdx
      intro i j u w hij
      exact .inl (Nat.add_lt_add_left hij 0)
    · exact .nil
  | any members | all members =>
    rw [visit, Visit.parts, visitParts_eq_mapIdx]
    apply pairwise_mapIdx
    intro i j u w hij
    exact .inl (Nat.add_lt_add_left hij 0)
  | or left right | and left right =>
    rw [visit]
    exact List.pairwise_pair.2 (.inl Nat.zero_lt_one)
  | boxed w | asserting w | spy name w => rw [visit]; exact List.pairwise_singleton _ _
  | _ => rw [visit]; exact .nil

/-- No two visits are at one site. -/
theorem nodup_sites_visit (w : Validator) (v : Value) : (w.visit v).sites.Nodup := by
  induction w using Validator.parts_induction generalizing v with
  | h w ih =>
    have hb : ∀ b ∈ (w.visit v).parts, b.2.sites.Nodup := fun b hb => by
      obtain ⟨u, hu, he⟩ := mem_parts_visit hb
      exact he ▸ ih u (List.mem_of_getElem? hu) _
    rw [← mk_mark_parts (w.visit v)]
    exact nodup_sites_mk _ _ (before_parts_visit w v) hb

/-- **Sites are what they say.** A visit at a site is that of the validator that occurs there, to
the value at that position. -/
theorem mark_of_mem_visits {w : Validator} {v : Value} {p : Site × Mark}
    (h : p ∈ (w.visit v).visits) :
    ∃ u, w.part? p.1.occurrence = some u ∧
      p.2 = (u.visit (v.followAll p.1.position)).mark := by
  induction w using Validator.parts_induction generalizing v p with
  | h w ih =>
    rw [← mk_mark_parts (w.visit v), visits] at h
    rcases List.mem_cons.1 h with rfl | h
    · exact ⟨w, rfl, rfl⟩
    · obtain ⟨b, hb, q, hq, rfl⟩ := mem_visitsBelow.1 h
      obtain ⟨u, hu, he⟩ := mem_parts_visit hb
      obtain ⟨t, ht, hm⟩ := ih u (List.mem_of_getElem? hu) (he ▸ hq)
      refine ⟨t, ?_, ?_⟩
      · simp [Site.under, part?, hu, ht]
      · rw [hm]
        cases hs : b.1.step <;> simp [Site.under, hs, Value.followAll, Value.turn]

/-! ## The calls of a run -/

theorem calls_run (w : Validator) (v : Value) : (w.run v).log.calls = (w.visit v).pruned.calls := by
  rw [run_eq_result, result, calls_log]

/-- A run that does not decide is made again as often as it is given. -/
theorem calls_runs_replicate {c : Connective} {r : Run} (h : r.accepted = c.neutral) (n : Nat) :
    (c.runs (List.replicate n r)).log.calls = (List.replicate n r.log.calls).flatten := by
  induction n with
  | zero => rfl
  | succ n ih =>
    rw [List.replicate_succ, List.replicate_succ, Connective.runs,
      Connective.next_of_accepted_eq h]
    exact (Log.calls_append _ _).trans (congrArg _ ih)

/-- As long as a validator accepts, `all` asks it as often as it is given. -/
theorem calls_all_replicate {w : Validator} {v : Value} (h : w.accepts v = true) (n : Nat) :
    (run (.all (List.replicate n w)) v).log.calls =
      (List.replicate n (w.run v).log.calls).flatten := by
  have hr : (w.run v).accepted = Connective.and.neutral := h
  rw [run_all, List.map_replicate, calls_runs_replicate hr]

/-- As long as a validator rejects, `any` asks it as often as it is given. -/
theorem calls_any_replicate {w : Validator} {v : Value} (h : w.accepts v = false) (n : Nat) :
    (run (.any (List.replicate n w)) v).log.calls =
      (List.replicate n (w.run v).log.calls).flatten := by
  have hr : (w.run v).accepted = Connective.or.neutral := h
  rw [run_any, List.map_replicate, calls_runs_replicate hr]

/-- The calls of a run are those of the pruned traversal. The traversal has the verdict of the run.
A container or a schema on a value of another kind makes no call; else every part is asked, from
left to right. Pruned, the traversal has no part after one that decides, and the calls that are left
keep their order. Each visit is of the validator that occurs at its site, to the value at its
position, and no two visits are at one site. A validator that is given again is asked again and
makes the same calls. -/
structure CallsOfPruned (w : Validator) (v : Value) : Prop where
  verdict : (w.visit v).verdict = w.accepts v
  misplaced : ∀ k, w.container? = some k → v.kind ≠ k → (w.visit v).calls = []
  width : (∀ k, w.container? = some k → v.kind = k) → (w.visit v).parts.length = w.width v
  part : ∀ b ∈ (w.visit v).parts, ∃ u, w.parts[b.1.part]? = some u ∧ b.2 = u.visit (v.turn b.1.step)
  ordered : (w.visit v).parts.Pairwise fun a b => a.1.Before b.1
  calls : (w.run v).log.calls = (w.visit v).pruned.calls
  settled : (w.visit v).pruned.Settled
  sublist : (w.visit v).pruned.calls.Sublist (w.visit v).calls
  mark : ∀ p ∈ (w.visit v).pruned.visits, ∃ u, w.part? p.1.occurrence = some u ∧
    p.2 = (u.visit (v.followAll p.1.position)).mark
  once : (w.visit v).pruned.sites.Nodup
  again : ∀ n, (run (if w.accepts v then .all (List.replicate n w) else .any (List.replicate n w))
    v).log.calls = (List.replicate n (w.run v).log.calls).flatten

/-- **The calls of a run are exactly those of the pruned traversal.** -/
theorem calls_run_exact (w : Validator) (v : Value) : w.CallsOfPruned v where
  verdict := by rw [accepts, run_eq_result, result]
  misplaced k hw hv := by
    rw [visit_of_kind_ne hw hv]
    rfl
  width := length_parts_visit
  part _ := mem_parts_visit
  ordered := before_parts_visit w v
  calls := calls_run w v
  settled := settled_pruned _
  sublist := (visits_pruned_sublist _).filterMap _
  mark _ hp := mark_of_mem_visits ((visits_pruned_sublist _).subset hp)
  once := ((visits_pruned_sublist _).map _).nodup (nodup_sites_visit w v)
  again n := by
    cases h : w.accepts v with
    | true => exact calls_all_replicate h n
    | false => exact calls_any_replicate h n

/-- A schema that is misplaced on `null`, a probe that accepts it, and one that comes too late. -/
def late : List Validator :=
  [.record [("a", .stub "never" true)], .spy "yes" .nil, .stub "late" true]

theorem calls_run_exact_late :
    Value.null.kind ≠ .object ∧
    (visit (.record [("a", .stub "never" true)]) .null).calls = [] ∧
    (visit (.any late) .null).parts.length = 3 ∧
    (run (.any late) .null).log.calls = [("yes", .null)] := by
  have hkind : Value.null.kind ≠ .object := nofun
  exact ⟨hkind, (calls_run_exact (.record _) .null).misplaced .object rfl hkind,
    (calls_run_exact (.any late) .null).width nofun, (calls_run_exact (.any late) .null).calls⟩

end Validator

end ShapeCheck
