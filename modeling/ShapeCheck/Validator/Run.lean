import ShapeCheck.Validator.Basic
/-!
# Running a validator

A run is the verdict on a value and what was signalled on the way: the calls of the probes and the
rejected assertions, in order. Evaluation goes from left to right and stops at the first child that
decides, so a validator after that child is not run at all and signals nothing.
-/
namespace ShapeCheck

/-- What a run reports besides its verdict, with the kind of the value it is about. -/
inductive Signal where
  | call (name : String) (seen : Kind)
  | rejection (seen : Kind)
deriving DecidableEq, Repr

/-- The signals of a run, in order. -/
abbrev Log : Type := List Signal

/-- A message to whoever watches the program. -/
structure Event where
  level : String
  kind : Kind
  message : String
deriving DecidableEq, Repr

/-- The message about a rejected value. -/
def Event.ofRejection (seen : Kind) : Event := ⟨"DEBUG", seen, "value rejected by assertion"⟩

namespace Log

/-- The calls of the probes: who was called, and the kind of the value it saw. -/
def calls (log : Log) : List (String × Kind) :=
  log.filterMap fun
    | .call name seen => some (name, seen)
    | .rejection _ => none

/-- The messages of the rejected assertions. -/
def events (log : Log) : List Event :=
  log.filterMap fun
    | .call _ _ => none
    | .rejection seen => some (.ofRejection seen)

theorem calls_append (a b : Log) : calls (a ++ b) = calls a ++ calls b := List.filterMap_append

theorem events_append (a b : Log) : events (a ++ b) = events a ++ events b := List.filterMap_append

end Log

/-- The verdict on a value, and what was signalled on the way. -/
structure Run where
  accepted : Bool
  log : Log
deriving DecidableEq, Repr

namespace Run

/-- A verdict without signals. -/
def silent (accepted : Bool) : Run := ⟨accepted, []⟩

/-- Goes on only if the first run accepted. -/
@[inline] def andThen (first : Run) (next : Unit → Run) : Run :=
  if first.accepted then
    let second := next ()
    ⟨second.accepted, first.log ++ second.log⟩
  else first

theorem accepted_andThen (first : Run) (next : Unit → Run) :
    (first.andThen next).accepted = (first.accepted && (next ()).accepted) := by
  cases h : first.accepted <;> simp [andThen, h]

/-- Goes on only if the first run rejected. -/
@[inline] def orElse (first : Run) (next : Unit → Run) : Run :=
  if first.accepted then first
  else
    let second := next ()
    ⟨second.accepted, first.log ++ second.log⟩

theorem accepted_orElse (first : Run) (next : Unit → Run) :
    (first.orElse next).accepted = (first.accepted || (next ()).accepted) := by
  cases h : first.accepted <;> simp [orElse, h]

/-- A signal in front of a run. -/
def after (signal : Signal) (r : Run) : Run := { r with log := signal :: r.log }

theorem accepted_after (signal : Signal) (r : Run) : (r.after signal).accepted = r.accepted := rfl

/-- The run of an assertion: a rejection is signalled after everything else. -/
def asserted (seen : Kind) (r : Run) : Run :=
  if r.accepted then r else { r with log := r.log ++ [.rejection seen] }

theorem accepted_asserted (seen : Kind) (r : Run) : (r.asserted seen).accepted = r.accepted := by
  unfold asserted; split <;> rfl

/-- All values, in order, up to the first rejection. -/
def every (check : Value → Run) : List Value → Run
  | [] => silent true
  | v :: vs => (check v).andThen fun _ => every check vs

end Run

namespace Validator

open Run

mutual

/-- The run of a validator on a value: `validate`, one clause for each form. -/
@[simp] def run : Validator → Value → Run
  | .boolean, v => silent (v.kind = .bool)
  | .string, v => silent (v.kind = .string)
  | .number, v => silent (v.kind = .number)
  | .empty, v => silent (v.kind = .undefined)
  | .nil, v => silent (v.kind = .null)
  | .literal expected, v => silent (v.strictEq expected)
  | .host type, v =>
    match v with
    | .host h => silent (h.type.id = type.id)
    | _ => silent false
  | .rule r, v => silent (r.accepts v)
  | .closure accepts, v => silent (accepts v)
  | .object inner, v =>
    match v with
    | .object _ entries => every (run inner) (entries.map Prod.snd)
    | _ => silent false
  | .array inner, v =>
    match v with
    | .array _ elements => every (run inner) elements
    | _ => silent false
  | .record fields, v =>
    match v with
    | .object _ entries => runFields fields entries
    | _ => silent false
  | .tuple items, v =>
    match v with
    | .array _ elements => runItems items elements
    | _ => silent false
  | .any members, v => runAny members v
  | .all members, v => runAll members v
  | .or left right, v => (run left v).orElse fun _ => run right v
  | .and left right, v => (run left v).andThen fun _ => run right v
  | .boxed inner, v => run inner v
  | .asserting inner, v => (run inner v).asserted v.kind
  | .stub name answer, v => (silent answer).after (.call name v.kind)
  | .spy name inner, v => (run inner v).after (.call name v.kind)

/-- Each field on the value at its key, up to the first rejection: `validate` of `Record`. -/
@[simp] def runFields : List (String × Validator) → Entries Value → Run
  | [], _ => silent true
  | (key, validator) :: fields, entries =>
    (run validator ((Entries.get? entries key).getD .undefined)).andThen fun _ =>
      runFields fields entries

/-- Each item on the element at its position, up to the first rejection: `validate` of `Tuple`. -/
@[simp] def runItems : List Validator → List Value → Run
  | [], _ => silent true
  | validator :: items, elements =>
    (run validator (elements.headD .undefined)).andThen fun _ => runItems items elements.tail

/-- The members in order, up to the first that accepts: `validate` of `Any`. -/
@[simp] def runAny : List Validator → Value → Run
  | [], _ => silent false
  | member :: members, v => (run member v).orElse fun _ => runAny members v

/-- The members in order, up to the first that rejects: `validate` of `All`. -/
@[simp] def runAll : List Validator → Value → Run
  | [], _ => silent true
  | member :: members, v => (run member v).andThen fun _ => runAll members v

end

/-- Does the validator accept the value? This is what `validate` answers. -/
def accepts (validator : Validator) (v : Value) : Bool := (validator.run v).accepted

end Validator

end ShapeCheck
