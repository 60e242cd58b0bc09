import ShapeCheck.Proofs.Connective
/-!
# Joins of any shape

Validators can be joined two at a time, in a list, in a chain that is joined from the right, and in
joins of joins; a part can be boxed. Main theorem `joins_flatten`: none of this matters. A tree of
joins runs as the plain list of its leaves from left to right, signals and all.
-/
namespace ShapeCheck

namespace Connective

/-- Two validators joined. -/
def pair : Connective → Validator → Validator → Validator
  | .or => .or
  | .and => .and

/-- A list of validators joined. -/
def list : Connective → List Validator → Validator
  | .or => .any
  | .and => .all

/-- Validators joined two at a time, from the right. -/
def chain : Connective → Validator → List Validator → Validator
  | .or => Validator.anyOf
  | .and => Validator.allOf

variable (c : Connective) (v : Value)

theorem run_pair (left right : Validator) :
    (c.pair left right).run v = c.next (left.run v) fun _ => right.run v := by
  cases c <;> rfl

theorem run_list (members : List Validator) :
    (c.list members).run v = c.runs (members.map (·.run v)) := by
  cases c with
  | or => exact Validator.run_any members v
  | and => exact Validator.run_all members v

theorem chain_cons (first second : Validator) (rest : List Validator) :
    c.chain first (second :: rest) = c.pair first (c.chain second rest) := by
  cases c <;> rfl

theorem run_chain (first : Validator) (rest : List Validator) :
    (c.chain first rest).run v = c.runs ((first :: rest).map (·.run v)) := by
  induction rest generalizing first with
  | nil =>
    have hfirst : c.chain first [] = first := by cases c <;> rfl
    rw [hfirst]
    exact (c.runs_singleton _).symm
  | cons second rest ih => rw [chain_cons, run_pair, ih]; rfl

end Connective

/-- Validators joined in any shape by one connective. What is at a leaf is not looked into: it may
be a join as well. -/
inductive JoinTree where
  | leaf (w : Validator)
  | pair (left right : JoinTree)
  | list (members : List JoinTree)
  | chain (first : JoinTree) (rest : List JoinTree)
  | boxed (inner : JoinTree)

namespace JoinTree

mutual

/-- The validator of this shape. -/
def toValidator (c : Connective) : JoinTree → Validator
  | .leaf w => w
  | .pair left right => c.pair (toValidator c left) (toValidator c right)
  | .list members => c.list (toValidators c members)
  | .chain first rest => c.chain (toValidator c first) (toValidators c rest)
  | .boxed inner => .boxed (toValidator c inner)

def toValidators (c : Connective) : List JoinTree → List Validator
  | [] => []
  | t :: ts => toValidator c t :: toValidators c ts

end

mutual

/-- The leaves from left to right. -/
def leaves : JoinTree → List Validator
  | .leaf w => [w]
  | .pair left right => leaves left ++ leaves right
  | .list members => leavesAll members
  | .chain first rest => leaves first ++ leavesAll rest
  | .boxed inner => leaves inner

def leavesAll : List JoinTree → List Validator
  | [] => []
  | t :: ts => leaves t ++ leavesAll ts

end

theorem leavesAll_append (ts us : List JoinTree) :
    leavesAll (ts ++ us) = leavesAll ts ++ leavesAll us := by
  induction ts with
  | nil => rfl
  | cons t ts ih => rw [List.cons_append, leavesAll, ih, leavesAll, List.append_assoc]

/-! ## A tree runs as its leaves -/

mutual

/-- **A tree of joins runs its leaves in turn**, and goes on or not just as they do. -/
theorem run_toValidator (c : Connective) (t : JoinTree) (v : Value) :
    (t.toValidator c).run v = c.runs (t.leaves.map (·.run v)) := by
  match t with
  | .leaf w => exact (c.runs_singleton _).symm
  | .pair left right =>
    rw [toValidator, Connective.run_pair, run_toValidator c left v, run_toValidator c right v,
      leaves, List.map_append, Connective.runs_append]
  | .list members =>
    rw [toValidator, Connective.run_list, runs_toValidators c members v, leaves]
  | .chain first rest =>
    rw [toValidator, Connective.run_chain, List.map_cons, Connective.runs,
      run_toValidator c first v, runs_toValidators c rest v, leaves, List.map_append,
      Connective.runs_append]
  | .boxed inner => exact run_toValidator c inner v

theorem runs_toValidators (c : Connective) (ts : List JoinTree) (v : Value) :
    c.runs ((toValidators c ts).map (·.run v)) = c.runs ((leavesAll ts).map (·.run v)) := by
  match ts with
  | [] => rfl
  | t :: ts =>
    rw [toValidators, List.map_cons, Connective.runs, run_toValidator c t v,
      runs_toValidators c ts v, leavesAll, List.map_append, Connective.runs_append]

end

/-- Trees with the same leaves run alike. -/
theorem run_congr {c : Connective} {t u : JoinTree} (h : t.leaves = u.leaves) (v : Value) :
    (t.toValidator c).run v = (u.toValidator c).run v := by
  rw [run_toValidator, run_toValidator, h]

end JoinTree

open JoinTree

/-- Joins flatten. A tree of alternatives, however its inner nodes join them, runs as `any` of its
leaves from left to right: with the same verdict, the same calls and the same rejections, in the
same order. So it is with a tree of conditions and `all`. A tolerance of absence is the alternative
of its marker on the left. Where a tree has no leaves it is as if it were not there. In particular a
chain is the list of its members, and a tolerance the list of the marker and the validator. -/
structure JoinsFlat : Prop where
  any : ∀ (t : JoinTree) (v : Value), (t.toValidator .or).run v = (Validator.any t.leaves).run v
  all : ∀ (t : JoinTree) (v : Value), (t.toValidator .and).run v = (Validator.all t.leaves).run v
  tolerance : ∀ t : JoinTree,
    (pair (leaf .empty) t).toValidator .or = (t.toValidator .or).optional ∧
      (pair (leaf .nil) t).toValidator .or = (t.toValidator .or).nullable
  barren : ∀ (c : Connective) (t : JoinTree) (before after : List JoinTree) (v : Value),
    t.leaves = [] → ((list (before ++ t :: after)).toValidator c).run v =
      ((list (before ++ after)).toValidator c).run v
  barren_left : ∀ (c : Connective) (t u : JoinTree) (v : Value), t.leaves = [] →
    ((pair t u).toValidator c).run v = (u.toValidator c).run v
  barren_right : ∀ (c : Connective) (t u : JoinTree) (v : Value), t.leaves = [] →
    ((pair u t).toValidator c).run v = (u.toValidator c).run v
  anyOf : ∀ (first : Validator) (rest : List Validator) (v : Value),
    (Validator.anyOf first rest).run v = (Validator.any (first :: rest)).run v
  allOf : ∀ (first : Validator) (rest : List Validator) (v : Value),
    (Validator.allOf first rest).run v = (Validator.all (first :: rest)).run v
  optional : ∀ (w : Validator) (v : Value), w.optional.run v = (Validator.any [.empty, w]).run v
  nullable : ∀ (w : Validator) (v : Value), w.nullable.run v = (Validator.any [.nil, w]).run v

/-- **Joins flatten.** -/
theorem joins_flatten : JoinsFlat where
  any t v := by rw [run_toValidator, Validator.run_any]
  all t v := by rw [run_toValidator, Validator.run_all]
  tolerance _ := ⟨rfl, rfl⟩
  barren c t before after v ht := by
    refine run_congr ?_ v
    rw [leaves, leavesAll_append, leavesAll, ht, List.nil_append, leaves, leavesAll_append]
  barren_left c t u v ht := run_congr (by rw [leaves, ht, List.nil_append]) v
  barren_right c t u v ht := run_congr (by rw [leaves, ht, List.append_nil]) v
  anyOf first rest v := by
    rw [Validator.run_any]
    exact Connective.run_chain .or v first rest
  allOf first rest v := by
    rw [Validator.run_all]
    exact Connective.run_chain .and v first rest
  optional w v := by
    rw [Validator.run_any]
    exact Connective.run_chain .or v .empty [w]
  nullable w v := by
    rw [Validator.run_any]
    exact Connective.run_chain .or v .nil [w]

/-- Lists without members, one in the other. -/
def barren : JoinTree := .list [.list [], .boxed (.list [])]

/-- Alternatives beside a tree without leaves run alike without it, and as one list. -/
theorem joins_flatten_barren :
    barren.leaves = [] ∧
    ((pair barren (pair (leaf (.spy "a" .nil)) (leaf .string))).toValidator .or).run (.string "x") =
      ((pair (leaf (.spy "a" .nil)) (leaf .string)).toValidator .or).run (.string "x") ∧
    ((list [barren, leaf .string]).toValidator .and).run (.string "x") =
      ((list [leaf .string]).toValidator .and).run (.string "x") := by
  have hleaves : barren.leaves = [] := rfl
  exact ⟨hleaves, joins_flatten.barren_left .or barren _ _ hleaves,
    joins_flatten.barren .and barren [] [leaf .string] _ hleaves⟩

end ShapeCheck
