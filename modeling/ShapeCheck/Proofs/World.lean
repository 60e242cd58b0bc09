import ShapeCheck.Proofs.Ledger
/-!
# Worlds

A world is what a program has at one moment: the ledger of its constructions and the values that it
holds. A step builds a value from held ones, reads a source, copies, or takes a value out of
another. Main theorem `reachable_sound`: whatever steps led to a world, its ledger is sound and
everything inside what it holds is on record.
-/
namespace ShapeCheck

structure World where
  made : Ledger
  held : List Value

namespace World

def start : World := ⟨[], []⟩

def hold (w : World) (v : Value) : World := { w with held := v :: w.held }

/-- A construction: the result is on record and held. -/
def build (w : World) (c : Fresh Id Value) : World :=
  ⟨(Ledger.build c w.made).2, (Ledger.build c w.made).1 :: w.held⟩

/-- The value is held, or inside one that is held. -/
def Found (w : World) (v : Value) : Prop := ∃ u ∈ w.held, v.Within u

/-- One operation on values that the program holds. Nothing is taken from elsewhere but scalars and
what a source is read to. -/
inductive Step (w : World) : World → Prop where
  | scalar {v : Value} : v.identity? = none → Step w (w.hold v)
  | array {elements : List Value} : (∀ v ∈ elements, v ∈ w.held) →
      Step w (w.build (Value.newArray elements))
  | object {pairs : List (String × Value)} : (∀ p ∈ pairs, p.2 ∈ w.held) →
      Step w (w.build (Value.newObject pairs))
  | host (type : HostType) {payload : Payload} : (∀ v ∈ payload.parts, v ∈ w.held) →
      Step w (w.build (Value.newHost type payload))
  | option {o : Option Value} : (∀ v ∈ o, v ∈ w.held) → Step w (w.hold (.ofOption o))
  | read {source : Source} {v : Value} {n : Nat} : source.read w.made.length = .ok (v, n) →
      Step w ⟨source.ledger w.made, v :: w.held⟩
  | copy {v : Value} : v ∈ w.held → Step w (w.hold v)
  | field {v : Value} (key : String) : v ∈ w.held → Step w (w.hold (v.field key))
  | item {v : Value} (index : Nat) : v ∈ w.held → Step w (w.hold (v.item index))
  /-- Who knows the type of a host object takes out what it holds. -/
  | payload {h : Host} {type : HostType} {payload : Payload} {v : Value} : .host h ∈ w.held →
      h.payload? type = some payload → v ∈ payload.parts → Step w (w.hold v)

/-- Worlds that some steps lead to. -/
inductive Reachable : World → Prop where
  | start : Reachable start
  | step {w w' : World} : Reachable w → Step w w' → Reachable w'

/-- The ledger is sound, and it tells all about what is held. -/
structure Sound (w : World) : Prop where
  made : w.made.Sound
  held : ∀ v ∈ w.held, w.made.Recorded v

variable {w w' : World} {v : Value}

theorem Sound.grow (h : Sound w) {after : Ledger} (hr : Ledger.Records w.made after [v]) :
    Sound ⟨after, v :: w.held⟩ := by
  refine ⟨hr.sound, ?_⟩
  intro u hu
  rcases List.mem_cons.1 hu with rfl | hu
  · exact hr.head
  · exact (h.held u hu).later hr.later

theorem Sound.hold (h : Sound w) (hv : w.made.Recorded v) : Sound (w.hold v) :=
  h.grow (h.made.records (List.forall_mem_singleton.2 hv))

theorem Sound.records (h : Sound w) {vs : List Value} (hvs : ∀ v ∈ vs, v ∈ w.held) :
    Ledger.Records w.made w.made vs := by
  apply h.made.records
  intro v hv
  exact h.held v (hvs v hv)

/-- A step draws only on what is on record, so what it leads to is on record too. -/
theorem step_sound (h : Sound w) (hs : Step w w') : Sound w' := by
  cases hs with
  | scalar hv => exact h.hold (Ledger.recorded_of_identity?_eq_none hv)
  | array he => exact h.grow (h.records he).array
  | object hp => exact h.grow (h.records (List.forall_mem_map.2 hp)).object
  | host type hp => exact h.grow ((h.records hp).host type)
  | @option o ho =>
    cases o with
    | none => exact h.hold (Ledger.recorded_of_identity?_eq_none rfl)
    | some v => exact h.hold (h.held v (ho v rfl))
  | read hr => exact h.grow (Source.records_of_read h.made hr)
  | copy hv => exact h.hold (h.held _ hv)
  | field key hv => exact h.hold ((h.held _ hv).field key)
  | item index hv => exact h.hold ((h.held _ hv).item index)
  | @payload g type p u hg hp hu =>
    rw [Host.payload?] at hp
    split at hp
    · cases hp
      exact h.hold ((h.held _ hg).part hu)
    · cases hp

/-- **Whatever the steps, the ledger is sound and what is held is on record.** -/
theorem reachable_sound (h : Reachable w) : Sound w := by
  induction h with
  | start => exact ⟨Ledger.Sound.nil, by simp [start]⟩
  | step _ hs ih => exact step_sound ih hs

theorem recorded_of_found (h : Reachable w) (hv : w.Found v) : w.made.Recorded v := by
  obtain ⟨u, hu, hv⟩ := hv
  exact ((reachable_sound h).held u hu).within hv

end World

end ShapeCheck
