import ShapeCheck.Proofs.Integers
import ShapeCheck.Proofs.Routes
/-!
# Numbers in JSON

A word is rounded to a finite double, so a JSON tree can only hold an infinite number or `nan` if it
holds it as a double. A text never does: its numbers are words, or doubles that were found to be
finite. Main theorem `isFinite_of_parse`: the tree of a text holds finite numbers only.
-/
namespace ShapeCheck

/-- A double is finite; a word always counts. -/
def JsonNumber.IsFinite : JsonNumber → Prop
  | .real x => x.isFinite = true
  | _ => True

theorem JsonNumber.isFinite_toDouble {n : JsonNumber} (h : n.IsFinite) :
    n.toDouble.isFinite = true := by
  cases n with
  | unsigned n => rw [toDouble_unsigned]; exact Word.isFinite_toDouble _
  | negative n => rw [toDouble_negative]; exact Word.isFinite_toDouble _
  | real x => exact h

namespace Json

mutual

/-- The numbers in a tree. -/
@[simp] def numbers : Json → List JsonNumber
  | .number n => [n]
  | .array elements => numbersOfElements elements
  | .object members => numbersOfMembers members
  | _ => []

@[simp] def numbersOfElements : List Json → List JsonNumber
  | [] => []
  | j :: js => numbers j ++ numbersOfElements js

@[simp] def numbersOfMembers : List (String × Json) → List JsonNumber
  | [] => []
  | (_, j) :: members => numbers j ++ numbersOfMembers members

end

/-- All numbers in the tree are finite. -/
def IsFinite (j : Json) : Prop := ∀ n ∈ j.numbers, n.IsFinite

theorem isFinite_array {elements : List Json} (h : ∀ j ∈ elements, j.IsFinite) :
    (array elements).IsFinite := by
  unfold IsFinite
  rw [numbers]
  induction elements with
  | nil => exact nofun
  | cons j js ih =>
    obtain ⟨hj, h⟩ := List.forall_mem_cons.1 h
    exact List.forall_mem_append.2 ⟨hj, ih h⟩

theorem isFinite_object {members : List (String × Json)} (h : ∀ m ∈ members, m.2.IsFinite) :
    (object members).IsFinite := by
  unfold IsFinite
  rw [numbers]
  induction members with
  | nil => exact nofun
  | cons m ms ih =>
    obtain ⟨hm, h⟩ := List.forall_mem_cons.1 h
    exact List.forall_mem_append.2 ⟨hm, ih h⟩

/-! ## Numbers of a text -/

/-- What is read, if anything is, has the property. -/
def Yields {α : Type} (P : α → Prop) (x : Except JsonError (Rest α)) : Prop :=
  ∀ a rest, x = .ok (a, rest) → P a

namespace Yields

variable {α β : Type} {P : α → Prop}

theorem error (e : JsonError) : Yields P (.error e) := nofun

theorem ok {a : α} (h : P a) (rest : List Char) : Yields P (.ok (a, rest)) := by
  intro a' rest' heq
  cases heq
  exact h

theorem bind {x : Except JsonError β} {f : β → Except JsonError (Rest α)}
    (h : ∀ b, x = .ok b → Yields P (f b)) : Yields P (x >>= f) := by
  cases x with
  | error e => exact error e
  | ok b => exact h b rfl

end Yields

theorem isFinite_of_finite? {d : Decimal} {n : JsonNumber} (h : finite? d = .ok n) :
    n.IsFinite := by
  unfold finite? at h
  dsimp only at h
  split at h
  · cases h
    assumption
  · cases h

/-- A number with a fraction, an exponent or too many digits is a double, and it was checked. -/
theorem isFinite_of_ofParts {negative : Bool} {whole fraction : List Char} {exponent : Option Int}
    {n : JsonNumber} (h : ofParts negative whole fraction exponent = .ok n) : n.IsFinite := by
  unfold ofParts at h
  dsimp only at h
  split at h
  · exact isFinite_of_finite? h
  · split at h
    · split at h
      · cases h
        trivial
      · exact isFinite_of_finite? h
    · split at h
      · cases h
        trivial
      · exact isFinite_of_finite? h

theorem yields_readNumber (cs : List Char) : Yields JsonNumber.IsFinite (readNumber cs) := by
  unfold readNumber
  apply Yields.bind
  intro whole _
  apply Yields.bind
  intro fraction _
  apply Yields.bind
  intro exponent _
  apply Yields.bind
  intro n hn
  exact .ok (isFinite_of_ofParts hn) _

theorem yields_readItems {α : Type} {P : α → Prop}
    {item : List Char → Except JsonError (Rest α)} (h : ∀ cs, Yields P (item cs)) (close : Char)
    (limit : Nat) (cs : List Char) :
    Yields (fun as => ∀ a ∈ as, P a) (readItems item close limit cs) := by
  induction limit generalizing cs with
  | zero => exact .error _
  | succ limit ih =>
    unfold readItems
    apply Yields.bind
    intro ⟨a, cs'⟩ ha
    have hP : P a := h cs a cs' ha
    dsimp only
    split
    · exact .error _
    · apply Yields.bind
      intro ⟨as, cs''⟩ has
      exact .ok (List.forall_mem_cons.2 ⟨hP, ih _ as cs'' has⟩) _
    · split
      · exact .ok (List.forall_mem_singleton.2 hP) _
      · exact .error _

theorem yields_readMember {α : Type} {P : α → Prop}
    {item : List Char → Except JsonError (Rest α)} (h : ∀ cs, Yields P (item cs))
    (cs : List Char) : Yields (fun m : String × α => P m.2) (readMember item cs) := by
  unfold readMember
  split
  · apply Yields.bind
    intro ⟨key, cs'⟩ _
    dsimp only
    split
    · apply Yields.bind
      intro ⟨a, cs''⟩ ha
      refine Yields.ok ?_ cs''
      exact h _ a cs'' ha
    · exact .error _
  · exact .error _

/-- **Every tree that is read holds finite numbers only**, whatever it is inside of. -/
theorem yields_readTree (room : Nat) (cs : List Char) : Yields IsFinite (readTree room cs) := by
  induction room using Nat.strongRecOn generalizing cs with
  | ind room ih =>
    unfold readTree
    split
    · exact .error _
    · exact .bind fun rest _ => .ok nofun rest
    · exact .bind fun rest _ => .ok nofun rest
    · exact .bind fun rest _ => .ok nofun rest
    · exact .bind fun ⟨_, rest⟩ _ => .ok nofun rest
    · split
      · exact .error _
      next room =>
        split
        · exact .ok nofun _
        · apply Yields.bind
          intro ⟨elements, rest⟩ h
          have hitem := ih room (Nat.lt_succ_self room)
          exact .ok (isFinite_array (yields_readItems hitem _ _ _ elements rest h)) rest
    · split
      · exact .error _
      next room =>
        split
        · exact .ok nofun _
        · apply Yields.bind
          intro ⟨members, rest⟩ h
          have hitem := yields_readMember (ih room (Nat.lt_succ_self room))
          exact .ok (isFinite_object (yields_readItems hitem _ _ _ members rest h)) rest
    · split
      · apply Yields.bind
        intro ⟨n, rest⟩ h
        exact .ok (List.forall_mem_singleton.2 (yields_readNumber _ n rest h)) rest
      · exact .error _

/-- **A text has finite numbers only.** -/
theorem isFinite_of_parse {text : String} {tree : Json} (h : parse text = .ok tree) :
    tree.IsFinite := by
  unfold parse at h
  cases hr : readTree depthLimit text.toList with
  | error e =>
    rw [hr] at h
    cases h
  | ok r =>
    obtain ⟨found, rest⟩ := r
    have hfinite : found.IsFinite := yields_readTree depthLimit text.toList found rest hr
    rw [hr] at h
    replace h : (if skipBlanks rest = [] then .ok found else .error .malformed) =
        (.ok tree : Except JsonError Json) := h
    split at h
    · cases h
      exact hfinite
    · cases h

end Json

end ShapeCheck
