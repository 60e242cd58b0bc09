import ShapeCheck.Proofs.Equality
import ShapeCheck.Proofs.World
/-!
# Reaching into values

A path of accesses takes a value apart as a program does that knows its shape: the value at a key,
the element at an index, one after the other. A path never fails, it leads to `undefined` where it
leads nowhere; it **opens** a value if every access on it looks into an object or an array, as it
should. What a path leads to is well keyed if the value is (`WellKeyed.reach`), and every value that
a program can hold is (`World.wellKeyed_of_found`).
-/
namespace ShapeCheck

/-- One look into a value. -/
inductive Access where
  | field (key : String)
  | item (index : Nat)
deriving DecidableEq, Repr

/-- The kind of the values that an access is meant for. -/
def Access.kind : Access → Kind
  | .field _ => .object
  | .item _ => .array

namespace Value

variable {v : Value}

/-- The elements of an array; of other values none. -/
def elements (v : Value) : List Value := v.asArray?.getD []

/-- The entries of an object; of other values none. -/
def entries (v : Value) : Entries Value := v.asObject?.getD []

theorem field_eq (v : Value) (key : String) :
    v.field key = (Entries.get? v.entries key).getD .undefined := by
  cases v <;> rfl

theorem item_eq (v : Value) (index : Nat) : v.item index = v.elements[index]?.getD .undefined := by
  rw [← List.getD_eq_getElem?_getD]
  cases v <;> rfl

theorem elements_of_isContainer_eq_false (h : v.isContainer = false) : v.elements = [] := by
  cases v with
  | array | object => cases h
  | _ => rfl

theorem entries_of_isContainer_eq_false (h : v.isContainer = false) : v.entries = [] := by
  cases v with
  | array | object => cases h
  | _ => rfl

def access (v : Value) : Access → Value
  | .field key => v.field key
  | .item index => v.item index

/-- What a path leads to. -/
def reach (v : Value) (path : List Access) : Value := path.foldl access v

@[simp] theorem reach_nil (v : Value) : v.reach [] = v := rfl

@[simp] theorem reach_cons (v : Value) (a : Access) (path : List Access) :
    v.reach (a :: path) = (v.access a).reach path := rfl

/-- At every access of the path there is a value of the kind that the access is meant for. -/
def Opens (v : Value) : List Access → Prop
  | [] => True
  | a :: path => v.kind = a.kind ∧ (v.access a).Opens path

/-! ## Well-keyed values -/

theorem WellKeyed.field (h : v.WellKeyed) (key : String) : (v.field key).WellKeyed := by
  rcases v.field_mem_parts_or key with hu | hu
  · exact h.part hu
  · exact hu ▸ wellKeyed_of_parts_eq_nil rfl

theorem WellKeyed.item (h : v.WellKeyed) (index : Nat) : (v.item index).WellKeyed := by
  rcases v.item_mem_parts_or index with hu | hu
  · exact h.part hu
  · exact hu ▸ wellKeyed_of_parts_eq_nil rfl

theorem WellKeyed.reach (h : v.WellKeyed) (path : List Access) : (v.reach path).WellKeyed := by
  induction path generalizing v with
  | nil => exact h
  | cons a path ih =>
    cases a with
    | field key => exact ih (h.field key)
    | item index => exact ih (h.item index)

theorem WellKeyed.entries (h : v.WellKeyed) : Entries.Distinct v.entries := by
  cases v with
  | object tag entries => exact h tag entries (.refl _)
  | _ => exact List.nodup_nil

end Value

/-- **Every value that a program can hold is well keyed.** -/
theorem World.wellKeyed_of_found {w : World} {v : Value} (h : Reachable w) (hv : w.Found v) :
    v.WellKeyed := by
  intro tag entries hw
  have hrecorded := recorded_of_found h hv _ tag hw rfl
  exact (reachable_sound h).made.distinct tag entries (List.mem_of_getElem? hrecorded)

end ShapeCheck
