import MethodBody.Code

/-!
# Instruction sinks

A sink is anything that takes instructions one by one. Lowering hands its output to a sink and
looks at nothing of the sink's state.
-/

namespace MethodBody

/-- Takes an instruction in a state of type `σ`, and may report events. -/
structure Sink (σ : Type) where
  accept : σ → Instruction → σ × List Event

/-- The sink that records what it is given. -/
def Code.sink : Sink Code where
  accept code instruction :=
    let warnings := (code.warning? instruction).toList
    (code.record instruction, warnings)

/-- How many instructions a sink was given, and how many of them store. -/
structure Tally where
  total : Nat
  stores : Nat
deriving DecidableEq, Inhabited

namespace Tally

/-- Nothing counted yet. -/
def zero : Tally := ⟨0, 0⟩

/-- The sink that only counts. -/
def sink : Sink Tally where
  accept tally instruction :=
    (⟨tally.total + 1, tally.stores + if instruction.isStore then 1 else 0⟩, [])

end Tally

end MethodBody
