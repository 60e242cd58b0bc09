import Mathlib.Data.List.Nodup
import ShapeCheck.Validator.Run
/-!
# Visits

A visit is one validator on one value, with the visits of its parts below it, whether or not they
are needed. Its verdict comes from all of them. **Pruning** takes away, at every visit, the parts
after the first one that settles the verdict; it changes no verdict (`verdict_pruned`), leaves
no part after a settling one (`settled_pruned`) and only takes away (`visits_pruned_sublist`).

A visit below the first is at a **site**: which occurrence of a validator it is, and at which
position in the value.
-/
namespace ShapeCheck

/-- How the verdicts of the parts make a verdict. -/
inductive Joint where
  /-- There are no parts to ask. -/
  | answer (accepts : Bool)
  | some
  | every
deriving DecidableEq, Repr

namespace Joint

def verdict : Joint → List Bool → Bool
  | .answer accepts, _ => accepts
  | .some, parts => parts.any id
  | .every, parts => parts.all id

/-- Does this verdict of a part make the verdicts after it unnecessary? -/
def settledBy : Joint → Bool → Bool
  | .answer _, _ => false
  | .some, part => part
  | .every, part => !part

/-- Nothing after a settling part matters. -/
theorem verdict_cons_of_settledBy {joint : Joint} {part : Bool} (h : joint.settledBy part = true)
    (parts : List Bool) : joint.verdict (part :: parts) = joint.verdict [part] := by
  cases joint <;> cases part <;> simp_all [settledBy, verdict]

/-- A part that does not settle leaves the verdict to those after it. -/
theorem verdict_cons_of_not_settledBy {joint : Joint} {part : Bool}
    (h : joint.settledBy part = false) (parts : List Bool) :
    joint.verdict (part :: parts) = joint.verdict parts := by
  cases joint <;> cases part <;> simp_all [settledBy, verdict]

end Joint

/-- What a visit shows of itself, without its parts. -/
structure Mark where
  seen : Kind
  joint : Joint
  /-- The name under which the visit is recorded as a call. -/
  call : Option String := none
  /-- Is a rejection signalled? -/
  asserts : Bool := false

namespace Mark

def opening (mark : Mark) : Log :=
  match mark.call with
  | some name => [.call name mark.seen]
  | none => []

def closing (mark : Mark) (accepted : Bool) : Log :=
  if mark.asserts && !accepted then [.rejection mark.seen] else []

/-- The recorded call, if there is one. -/
def called (mark : Mark) : Option (String × Kind) := mark.call.map fun name => (name, mark.seen)

theorem calls_opening (mark : Mark) : Log.calls mark.opening = mark.called.toList := by
  unfold opening called
  cases mark.call <;> rfl

theorem calls_closing (mark : Mark) (accepted : Bool) :
    Log.calls (mark.closing accepted) = [] := by
  unfold closing
  split <;> rfl

end Mark

/-- A step into a value: to what is stored at a place, or to where a key leads. -/
inductive Step where
  | place (n : Nat)
  | key (k : String)
deriving DecidableEq, Repr

/-- The way from a visit to one below it: which part of the validator, and which step into the
value, if it is not the same value. -/
structure Turn where
  part : Nat
  step : Option Step

/-- The visit of a validator to a value. -/
inductive Visit where
  | mk (mark : Mark) (below : List (Turn × Visit))

/-- The turns from the first visit to another. -/
structure Site where
  occurrence : List Nat
  position : List Step

namespace Site

def root : Site := ⟨[], []⟩

/-- The site as it is seen from one turn before. -/
def under (turn : Turn) (s : Site) : Site :=
  ⟨turn.part :: s.occurrence, turn.step.toList ++ s.position⟩

theorem under_ne_root (turn : Turn) (s : Site) : s.under turn ≠ root :=
  fun h => by simpa [under, root] using congrArg Site.occurrence h

theorem under_injective (turn : Turn) : Function.Injective (under turn) := by
  rintro ⟨o, p⟩ ⟨o', p'⟩ h
  obtain ⟨ho, hp⟩ := Site.mk.inj h
  exact Site.mk.injEq .. ▸ ⟨(List.cons.inj ho).2, List.append_cancel_left hp⟩

end Site

namespace Turn

/-- To a part further left, or to a place further left in the value. -/
def Before (s t : Turn) : Prop :=
  s.part < t.part ∨ ∃ m n, s.step = some (.place m) ∧ t.step = some (.place n) ∧ m < n

theorem Before.under_ne {s t : Turn} (h : Before s t) (x y : Site) : x.under s ≠ y.under t := by
  intro he
  obtain ⟨ho, hp⟩ := Site.mk.inj he
  rcases h with h | ⟨m, n, hs, ht, hmn⟩
  · have hpart : s.part = t.part := (List.cons.inj ho).1
    omega
  · rw [hs, ht] at hp
    have hplace : m = n := Step.place.inj (List.cons.inj hp).1
    omega

end Turn

namespace Visit

/-- To hold of every visit, it is enough to hold of one whenever it holds of those below it. -/
theorem induction {P : Visit → Prop}
    (mk : ∀ mark below, (∀ b ∈ below, P b.2) → P (.mk mark below)) (c : Visit) : P c := by
  refine Visit.rec (motive_1 := P) (motive_2 := fun below => ∀ b ∈ below, P b.2)
    (motive_3 := fun b => P b.2) mk ?_ ?_ ?_ c
  · exact fun _ h => absurd h List.not_mem_nil
  · exact fun b bs hb hbs => List.forall_mem_cons.2 ⟨hb, hbs⟩
  · exact fun _ _ h => h

def mark : Visit → Mark
  | .mk mark _ => mark

def parts : Visit → List (Turn × Visit)
  | .mk _ below => below

theorem mk_mark_parts (c : Visit) : .mk c.mark c.parts = c := by
  cases c; rfl

/-! ## Verdicts and pruning -/

mutual

/-- The verdict, from the verdicts of all parts. -/
@[simp] def verdict : Visit → Bool
  | .mk mark below => mark.joint.verdict (verdicts below)

@[simp] def verdicts : List (Turn × Visit) → List Bool
  | [] => []
  | (_, c) :: cs => verdict c :: verdicts cs

end

mutual

/-- The visit without the parts that come after a settling one, at every depth. -/
@[simp] def pruned : Visit → Visit
  | .mk mark below => .mk mark (prunedBelow mark.joint below)

@[simp] def prunedBelow (joint : Joint) : List (Turn × Visit) → List (Turn × Visit)
  | [] => []
  | (turn, c) :: cs =>
    (turn, pruned c) :: if joint.settledBy (verdict c) then [] else prunedBelow joint cs

end

theorem verdict_prunedBelow (joint : Joint) (below : List (Turn × Visit))
    (ih : ∀ b ∈ below, b.2.pruned.verdict = b.2.verdict) :
    joint.verdict (verdicts (prunedBelow joint below)) = joint.verdict (verdicts below) := by
  induction below with
  | nil => rfl
  | cons b below ihb =>
    obtain ⟨turn, c⟩ := b
    obtain ⟨hc, ih⟩ := List.forall_mem_cons.1 ih
    have hc : c.pruned.verdict = c.verdict := hc
    cases hs : joint.settledBy c.verdict with
    | true => simp [hs, hc, Joint.verdict_cons_of_settledBy hs (verdicts below)]
    | false => simp [hs, hc, Joint.verdict_cons_of_not_settledBy hs, ihb ih]

/-- Pruning changes no verdict. -/
theorem verdict_pruned (c : Visit) : c.pruned.verdict = c.verdict := by
  induction c using Visit.induction with
  | mk mark below ih => simp [verdict_prunedBelow mark.joint below ih]

/-- At no visit does a part come after one that settles the verdict. -/
inductive Settled : Visit → Prop where
  | mk {mark : Mark} {below : List (Turn × Visit)}
      (last : ∀ before b after, below = before ++ b :: after →
        mark.joint.settledBy b.2.verdict = true → after = [])
      (parts : ∀ b ∈ below, Settled b.2) : Settled (.mk mark below)

theorem prunedBelow_last (joint : Joint) (below before : List (Turn × Visit))
    (b : Turn × Visit) (after : List (Turn × Visit))
    (h : prunedBelow joint below = before ++ b :: after)
    (hb : joint.settledBy b.2.verdict = true) : after = [] := by
  induction below generalizing before with
  | nil => simp at h
  | cons d below ih =>
    obtain ⟨turn, c⟩ := d
    rw [prunedBelow] at h
    cases before with
    | nil =>
      obtain ⟨rfl, rfl⟩ := List.cons.inj h
      rw [verdict_pruned] at hb
      rw [if_pos hb]
    | cons e before =>
      obtain ⟨-, h⟩ := List.cons.inj h
      split at h
      · simp at h
      · exact ih before h

theorem exists_of_mem_prunedBelow {joint : Joint} {below : List (Turn × Visit)}
    {b : Turn × Visit} (h : b ∈ prunedBelow joint below) :
    ∃ c, (b.1, c) ∈ below ∧ b.2 = c.pruned := by
  induction below with
  | nil => simp at h
  | cons d below ih =>
    obtain ⟨turn, c⟩ := d
    rw [prunedBelow] at h
    rcases List.mem_cons.1 h with rfl | h
    · exact ⟨c, List.mem_cons_self, rfl⟩
    · split at h
      · simp at h
      · obtain ⟨c', hm, hc⟩ := ih h
        exact ⟨c', List.mem_cons_of_mem _ hm, hc⟩

theorem settled_pruned (c : Visit) : c.pruned.Settled := by
  induction c using Visit.induction with
  | mk mark below ih =>
    rw [pruned]
    refine .mk (prunedBelow_last mark.joint below) fun b hb => ?_
    obtain ⟨c, hm, hc⟩ := exists_of_mem_prunedBelow hb
    exact hc ▸ ih (b.1, c) hm

/-! ## Logs and sites -/

mutual

/-- What a visit signals: its call before its parts, its rejection after them. -/
@[simp] def log : Visit → Log
  | .mk mark below =>
    mark.opening ++ (logBelow below ++ mark.closing (mark.joint.verdict (verdicts below)))

@[simp] def logBelow : List (Turn × Visit) → Log
  | [] => []
  | (_, c) :: cs => log c ++ logBelow cs

end

mutual

/-- The visit and all below it, each before its parts, with the site of each. -/
@[simp] def visits : Visit → List (Site × Mark)
  | .mk mark below => (.root, mark) :: visitsBelow below

@[simp] def visitsBelow : List (Turn × Visit) → List (Site × Mark)
  | [] => []
  | (turn, c) :: cs => (visits c).map (fun p => (p.1.under turn, p.2)) ++ visitsBelow cs

end

def sites (c : Visit) : List Site := c.visits.map Prod.fst

/-- The calls in the order of the visits. -/
def calls (c : Visit) : List (String × Kind) := c.visits.filterMap fun p => p.2.called

theorem calls_logBelow (below : List (Turn × Visit))
    (ih : ∀ b ∈ below, Log.calls b.2.log = b.2.calls) :
    Log.calls (logBelow below) = (visitsBelow below).filterMap fun p => p.2.called := by
  induction below with
  | nil => rfl
  | cons b below ihb =>
    obtain ⟨turn, c⟩ := b
    obtain ⟨hc, ih⟩ := List.forall_mem_cons.1 ih
    rw [logBelow, Log.calls_append, ihb ih, visitsBelow, List.filterMap_append,
      List.filterMap_map, hc]
    rfl

/-- The calls in the log of a visit are the calls of the visits in their order. -/
theorem calls_log (c : Visit) : Log.calls c.log = c.calls := by
  induction c using Visit.induction with
  | mk mark below ih =>
    rw [log, Log.calls_append, Log.calls_append, Mark.calls_opening, Mark.calls_closing,
      List.append_nil, calls_logBelow below ih, calls, visits, List.filterMap_cons]
    cases mark.called <;> rfl

theorem visitsBelow_prunedBelow_sublist (joint : Joint) (below : List (Turn × Visit))
    (ih : ∀ b ∈ below, b.2.pruned.visits.Sublist b.2.visits) :
    (visitsBelow (prunedBelow joint below)).Sublist (visitsBelow below) := by
  induction below with
  | nil => exact List.Sublist.refl _
  | cons b below ihb =>
    obtain ⟨turn, c⟩ := b
    obtain ⟨hc, ih⟩ := List.forall_mem_cons.1 ih
    rw [prunedBelow, visitsBelow, visitsBelow]
    refine (hc.map _).append ?_
    split
    · exact List.nil_sublist _
    · exact ihb ih

/-- Pruning only takes visits away. -/
theorem visits_pruned_sublist (c : Visit) : c.pruned.visits.Sublist c.visits := by
  induction c using Visit.induction with
  | mk mark below ih =>
    rw [pruned, visits, visits]
    exact (visitsBelow_prunedBelow_sublist mark.joint below ih).cons_cons _

theorem mem_visitsBelow {below : List (Turn × Visit)} {p : Site × Mark} :
    p ∈ visitsBelow below ↔
      ∃ b ∈ below, ∃ q ∈ b.2.visits, p = (q.1.under b.1, q.2) := by
  induction below with
  | nil => simp
  | cons b below ih =>
    obtain ⟨turn, c⟩ := b
    simp [ih, eq_comm]

theorem sites_mk (mark : Mark) (below : List (Turn × Visit)) :
    (Visit.mk mark below).sites = .root :: (visitsBelow below).map Prod.fst := by
  rw [sites, visits, List.map_cons]

/-- Turns that come one before the other lead to different sites. -/
theorem nodup_sites_mk (mark : Mark) (below : List (Turn × Visit))
    (hpair : below.Pairwise fun a b => a.1.Before b.1) (ih : ∀ b ∈ below, b.2.sites.Nodup) :
    (Visit.mk mark below).sites.Nodup := by
  rw [sites_mk, List.nodup_cons]
  constructor
  · intro h
    obtain ⟨p, hp, he⟩ := List.mem_map.1 h
    obtain ⟨b, _, q, _, rfl⟩ := mem_visitsBelow.1 hp
    exact Site.under_ne_root b.1 q.1 he
  · induction below with
    | nil => exact List.Pairwise.nil
    | cons b below ihb =>
      obtain ⟨turn, c⟩ := b
      obtain ⟨hc, ih⟩ := List.forall_mem_cons.1 ih
      obtain ⟨hb, hpair⟩ := List.pairwise_cons.1 hpair
      rw [visitsBelow, List.map_append, List.map_map, List.nodup_append]
      refine ⟨?_, ihb hpair ih, ?_⟩
      · have h := List.Nodup.map (Site.under_injective turn) hc
        rw [sites, List.map_map] at h
        exact h
      · intro s hs s' hs'
        obtain ⟨p, _, rfl⟩ := List.mem_map.1 hs
        obtain ⟨p', hp', rfl⟩ := List.mem_map.1 hs'
        obtain ⟨b', hb', q, _, rfl⟩ := mem_visitsBelow.1 hp'
        exact (hb b' hb').under_ne p.1 q.1

end Visit

end ShapeCheck
