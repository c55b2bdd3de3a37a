import MethodBody.Lowering
import MethodBody.Proofs.Occurrences

/-!
# Transcripts of lowering

What lowering does to a sink is fixed before the sink is chosen. A `Transcript` lists the events
that lowering reports and the instructions that it hands over, in order, with the error that stopped
it. `Expr.transcript` computes it without any state. Two transcripts are put one after the other by
`++`, where the second is dropped if the first was stopped.
-/

namespace MethodBody

/-- One thing that lowering does. -/
inductive Act where
  | report (event : Event)
  | put (instruction : Instruction)
deriving DecidableEq

/-- What a lowering does, in order, and the error that stopped it if one did. -/
structure Transcript where
  acts : List Act
  error? : Option LowerError
deriving DecidableEq

namespace Transcript

/-- Nothing is done. -/
def done : Transcript := ⟨[], none⟩

/-- An event is reported. -/
def report (event : Event) : Transcript := ⟨[.report event], none⟩

/-- An instruction is handed over. -/
def put (instruction : Instruction) : Transcript := ⟨[.put instruction], none⟩

/-- Lowering stops. -/
def stop (error : LowerError) : Transcript := ⟨[], some error⟩

/-- One after the other. The second is not begun if the first was stopped. -/
def andThen (first second : Transcript) : Transcript :=
  match first.error? with
  | none => ⟨first.acts ++ second.acts, second.error?⟩
  | some error => ⟨first.acts, some error⟩

instance : Append Transcript := ⟨andThen⟩

/-- A node is come to: refused if it lies deeper than the limit, reported otherwise. -/
def enter (limit : Nat) (kind : Kind) (depth : Nat) : Transcript :=
  if limit < depth then report (.nestingLimit kind depth) ++ stop (.nestingTooDeep depth limit)
  else report (.visit kind depth)

/-- The variables of a block are reported, if there are any. -/
def reportLocals (locals : List Variable) : Transcript :=
  if locals.isEmpty then done else report (.blockLocals locals.length)

/-- The instruction that an act hands over. -/
def instruction? : Act → Option Instruction
  | .report _ => none
  | .put instruction => some instruction

/-- The instructions that are handed over. -/
def instructions (t : Transcript) : List Instruction := t.acts.filterMap instruction?

/-- The event that an act reports. -/
def event? : Act → Option Event
  | .report event => some event
  | .put _ => none

/-- The events that are reported. -/
def events (t : Transcript) : List Event := t.acts.filterMap event?

/-- After a transcript that is not stopped the second one is done. -/
theorem append_of_error?_eq_none {a : Transcript} (ha : a.error? = none) (b : Transcript) :
    a ++ b = ⟨a.acts ++ b.acts, b.error?⟩ := by
  change a.andThen b = _
  rw [andThen, ha]

/-- After a transcript that is stopped nothing is done. -/
theorem append_of_error?_eq_some {a : Transcript} {error : LowerError}
    (ha : a.error? = some error) (b : Transcript) : a ++ b = a := by
  change a.andThen b = _
  rw [andThen, ha]
  cases a
  simp_all

/-- The error of two transcripts in turn is that of the first one that has an error. -/
@[simp] theorem error?_append (a b : Transcript) : (a ++ b).error? = a.error?.or b.error? := by
  cases ha : a.error? with
  | none => simp [append_of_error?_eq_none ha]
  | some error => simp [append_of_error?_eq_some ha, ha]

/-- If the first transcript is not stopped, the instructions follow one another. -/
theorem instructions_append {a : Transcript} (ha : a.error? = none) (b : Transcript) :
    (a ++ b).instructions = a.instructions ++ b.instructions := by
  simp [append_of_error?_eq_none ha, instructions]

/-- Every event of two transcripts in turn is one of the first or of the second. -/
theorem mem_events_append {a b : Transcript} {event : Event} (h : event ∈ (a ++ b).events) :
    event ∈ a.events ∨ event ∈ b.events := by
  cases ha : a.error? with
  | none =>
    rw [append_of_error?_eq_none ha] at h
    simpa [events] using h
  | some error =>
    rw [append_of_error?_eq_some ha] at h
    exact .inl h

/-- Transcripts in turn may be grouped in any way. -/
theorem append_assoc (a b c : Transcript) : a ++ b ++ c = a ++ (b ++ c) := by
  cases ha : a.error? with
  | some error =>
    rw [append_of_error?_eq_some ha, append_of_error?_eq_some ha, append_of_error?_eq_some ha]
  | none =>
    cases hb : b.error? with
    | none =>
      have hab : (a ++ b).error? = none := by simp [ha, hb]
      rw [append_of_error?_eq_none hab, append_of_error?_eq_none ha,
        append_of_error?_eq_none ha, append_of_error?_eq_none hb, List.append_assoc]
    | some error =>
      have hab : (a ++ b).error? = some error := by simp [ha, hb]
      rw [append_of_error?_eq_some hab, append_of_error?_eq_some hb]

/-- Doing nothing first changes nothing. -/
@[simp] theorem done_append (t : Transcript) : done ++ t = t := rfl

/-- Doing nothing afterwards changes nothing. -/
@[simp] theorem append_done (t : Transcript) : t ++ done = t := by
  cases ht : t.error? with
  | none =>
    rw [append_of_error?_eq_none ht]
    cases t
    simp_all [done]
  | some error => exact append_of_error?_eq_some ht done

/-- Doing nothing is not stopped. -/
@[simp] theorem error?_done : done.error? = none := rfl

/-- Reporting is not stopped. -/
@[simp] theorem error?_report (event : Event) : (report event).error? = none := rfl

/-- Handing over is not stopped. -/
@[simp] theorem error?_put (instruction : Instruction) : (put instruction).error? = none := rfl

/-- What is stopped is stopped by its error. -/
@[simp] theorem error?_stop (error : LowerError) : (stop error).error? = some error := rfl

/-- Where there are no variables nothing is done. -/
@[simp] theorem reportLocals_nil : reportLocals [] = done := rfl

/-- Reporting variables is not stopped. -/
@[simp] theorem error?_reportLocals (locals : List Variable) :
    (reportLocals locals).error? = none := by
  unfold reportLocals
  split <;> rfl

/-- Coming to a node is stopped beyond the limit. -/
@[simp] theorem error?_enter (limit : Nat) (kind : Kind) (depth : Nat) :
    (enter limit kind depth).error? =
      if limit < depth then some (.nestingTooDeep depth limit) else none := by
  unfold enter
  split <;> simp

/-- A node is come to if it lies within the limit. -/
theorem error?_enter_eq_none_iff {limit : Nat} {kind : Kind} {depth : Nat} :
    (enter limit kind depth).error? = none ↔ depth ≤ limit := by
  simp

/-- Doing nothing hands nothing over. -/
@[simp] theorem instructions_done : done.instructions = [] := rfl

/-- An instruction is handed over by itself. -/
@[simp] theorem instructions_put (i : Instruction) : (put i).instructions = [i] := rfl

/-- An instruction is handed over before all that follows. -/
@[simp] theorem instructions_put_append (i : Instruction) (b : Transcript) :
    (put i ++ b).instructions = i :: b.instructions := rfl

/-- Coming to a node hands nothing over. -/
@[simp] theorem instructions_enter (limit : Nat) (kind : Kind) (depth : Nat) :
    (enter limit kind depth).instructions = [] := by
  unfold enter
  split <;> rfl

/-- Reporting variables hands nothing over. -/
@[simp] theorem instructions_reportLocals (locals : List Variable) :
    (reportLocals locals).instructions = [] := by
  unfold reportLocals
  split <;> rfl

end Transcript

namespace Expr

open Transcript (enter put report stop reportLocals)

mutual

/-- The transcript of lowering an expression that lies at the given depth. -/
def transcript (limit : Nat) : Expr → Nat → Transcript
  | .constant _ value, depth => enter limit .constant depth ++ put (.pushLiteral value)
  | .parameter _ var, depth => enter limit .parameter depth ++ put (.loadLocal var.slot)
  | .member _ target field, depth =>
    enter limit .member depth ++ target.transcript limit (depth + 1) ++ put (.getField field)
  | .arrayIndex _ _ _, depth =>
    enter limit .arrayIndex depth ++ stop (.unsupportedNode .arrayIndex Lower.elementContext)
  | .assign _ (.member _ target field) right, depth =>
    enter limit .assign depth ++ enter limit .member (depth + 1)
      ++ target.transcript limit (depth + 2) ++ right.transcript limit (depth + 1)
      ++ put (.putField field)
  | .assign _ (.arrayIndex _ array index) right, depth =>
    enter limit .assign depth ++ enter limit .arrayIndex (depth + 1)
      ++ array.transcript limit (depth + 2) ++ index.transcript limit (depth + 2)
      ++ right.transcript limit (depth + 1) ++ put .storeArrayElement
  | .assign _ (.parameter _ var) right, depth =>
    enter limit .assign depth ++ right.transcript limit (depth + 1) ++ put (.storeLocal var.slot)
  | .assign _ left _, depth =>
    enter limit .assign depth ++ report (.rejectedTarget left.kind)
      ++ stop (.invalidAssignmentTarget left.kind)
  | .call _ none sig args, depth =>
    enter limit .call depth ++ transcriptAll limit args (depth + 1) ++ put (.invokeStatic sig)
  | .call _ (some receiver) sig args, depth =>
    enter limit .call depth ++ receiver.transcript limit (depth + 1)
      ++ transcriptAll limit args (depth + 1) ++ put (.invokeVirtual sig)
  | .newArray _ element elements, depth =>
    enter limit .newArray depth ++ put (.pushInt (Int32.ofNat elements.length))
      ++ put (.newArray element) ++ transcriptElements limit elements 0 (depth + 1)
  | .block _ ty locals statements result, depth =>
    enter limit .block depth ++ reportLocals locals ++ transcriptAll limit statements (depth + 1)
      ++ result.transcript limit (depth + 1)
      ++ put (if ty.isVoid then .returnVoid else .returnValue)

/-- The transcript of lowering several expressions in order, all at one depth. -/
def transcriptAll (limit : Nat) : List Expr → Nat → Transcript
  | [], _ => .done
  | e :: rest, depth => e.transcript limit depth ++ transcriptAll limit rest depth

/-- The transcript of storing expressions into an array, from the given position on. -/
def transcriptElements (limit : Nat) : List Expr → Nat → Nat → Transcript
  | [], _, _ => .done
  | e :: rest, position, depth =>
    put .dupArrayRef ++ put (.pushInt (Int32.ofNat position)) ++ e.transcript limit depth
      ++ put .storeArrayElement ++ transcriptElements limit rest (position + 1) depth

end

/-- The transcript of an assignment whose left side is not assignable. -/
theorem transcript_assign_of_not_assignable {left : Expr} (hleft : left.isAssignable = false)
    (limit : Nat) (id : NodeId) (right : Expr) (depth : Nat) :
    (Expr.assign id left right).transcript limit depth =
      enter limit .assign depth ++ report (.rejectedTarget left.kind)
        ++ stop (.invalidAssignmentTarget left.kind) := by
  cases left with
  | member | arrayIndex | parameter => simp [isAssignable, kind] at hleft
  | assign | constant | call | block | newArray => simp only [transcript]

end Expr

/-- Whether an event is one that lowering an expression reports, whatever the sink does. -/
def Event.isOfLowering : Event → Bool
  | .visit .. => true
  | .nestingLimit .. => true
  | .rejectedTarget _ => true
  | .blockLocals _ => true
  | _ => false

/-- Lowering itself does not speak of missing operands. -/
theorem Event.message_ne_underflow {event : Event} (h : event.isOfLowering = true) :
    event.message ≠ "Operand stack underflow" := by
  cases event with
  | visit | nestingLimit | rejectedTarget | blockLocals => simp [message]
  | rejectedName | rejectedArity | rejectedBlock | rejectedElementType | started | finished
  | underflow => simp [isOfLowering] at h

namespace Transcript

/-- Nothing is reported but by lowering itself. -/
def Own (t : Transcript) : Prop := ∀ event ∈ t.events, event.isOfLowering = true

/-- Two transcripts in turn report what each of them reports. -/
theorem Own.append {a b : Transcript} (ha : a.Own) (hb : b.Own) : (a ++ b).Own := by
  intro event hevent
  rcases mem_events_append hevent with h | h
  · exact ha event h
  · exact hb event h

/-- Where nothing is done nothing is reported. -/
theorem own_of_acts_eq_nil {t : Transcript} (ht : t.acts = []) : t.Own := by
  simp [Own, events, ht]

/-- Handing over reports nothing by itself. -/
theorem own_put (i : Instruction) : (put i).Own := by
  simp [Own, events, put, event?]

/-- Lowering reports its own events. -/
theorem own_report {event : Event} (h : event.isOfLowering = true) : (report event).Own := by
  simpa [Own, events, report, event?] using h

/-- Coming to a node is an event of lowering, within the limit and beyond it. -/
theorem own_enter (limit : Nat) (kind : Kind) (depth : Nat) : (enter limit kind depth).Own := by
  unfold enter
  split
  · exact (own_report rfl).append (own_of_acts_eq_nil rfl)
  · exact own_report rfl

/-- The variables of a block are an event of lowering. -/
theorem own_reportLocals (locals : List Variable) : (reportLocals locals).Own := by
  unfold reportLocals
  split
  · exact own_of_acts_eq_nil rfl
  · exact own_report rfl

end Transcript

end MethodBody
