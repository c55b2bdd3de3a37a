import MethodBody.Proofs.Parts
import MethodBody.Proofs.Recorder

/-!
# The size of the frame

A recorder makes room for every variable that is loaded or stored to. A variable that is read is
loaded where lowering comes to it. One that is assigned to is never come to by itself, and is stored
to after the value. So the slots in the code are those of the variables that occur in the tree, on
either side of an assignment. If lowering stops before the end they are some of those. What a block
declares is not looked at.
-/

namespace MethodBody

/-- The size of the smallest frame that has all the given slots. -/
def frameFor : List UInt16 → Nat
  | [] => 0
  | slot :: rest => max (slot.toNat + 1) (frameFor rest)

/-- The smallest frame has all the slots. -/
theorem lt_frameFor_of_mem {slots : List UInt16} {slot : UInt16} (h : slot ∈ slots) :
    slot.toNat < frameFor slots := by
  induction slots with
  | nil => simp at h
  | cons first rest ih =>
    rw [frameFor]
    rcases List.mem_cons.mp h with rfl | hrest
    · omega
    · have := ih hrest
      omega

/-- A frame that has all the slots is not smaller than the smallest one. -/
theorem frameFor_le {slots : List UInt16} {n : Nat} (h : ∀ slot ∈ slots, slot.toNat < n) :
    frameFor slots ≤ n := by
  induction slots with
  | nil => exact Nat.zero_le n
  | cons first rest ih =>
    have hfirst := h first (by simp)
    have hrest := ih fun slot hslot => h slot (by simp [hslot])
    rw [frameFor]
    omega

/-- Fewer slots need no larger frame. -/
theorem frameFor_mono {xs ys : List UInt16} (h : ∀ slot ∈ xs, slot ∈ ys) :
    frameFor xs ≤ frameFor ys :=
  frameFor_le fun slot hslot => lt_frameFor_of_mem (h slot hslot)

/-- The slots of the variables that are loaded or stored to. -/
def Instruction.slots (is : List Instruction) : List UInt16 := is.filterMap slot?

/-- The slot of a variable. -/
def Expr.slot? : Expr → Option UInt16
  | .parameter _ var => some var.slot
  | _ => none

namespace Occurrence

/-- The slots of the variables among some occurrences, whether they are read or assigned to. -/
def slots (os : List Occurrence) : List UInt16 := os.filterMap fun o => o.node.slot?

/-- There are no slots where nothing occurs. -/
@[simp] theorem slots_nil : slots [] = [] := rfl

/-- The slots among occurrences in turn. -/
@[simp] theorem slots_append (xs ys : List Occurrence) :
    slots (xs ++ ys) = slots xs ++ slots ys := by
  simp [slots]

/-- The slot of an occurrence that is a variable comes first. -/
@[simp] theorem slots_cons (o : Occurrence) (os : List Occurrence) :
    slots (o :: os) = o.node.slot?.toList ++ slots os := by
  cases h : o.node.slot? <;> simp [slots, h]

end Occurrence

namespace Transcript

/-- Lowering uses no other variables than those with the given slots, and all of them if it is not
stopped. -/
structure Touches (t : Transcript) (slots : List UInt16) : Prop where
  only : ∀ slot ∈ Instruction.slots t.instructions, slot ∈ slots
  all : t.error? = none → ∀ slot ∈ slots, slot ∈ Instruction.slots t.instructions

variable {t u : Transcript} {xs ys : List UInt16}

/-- Two parts in turn use the variables of both. Of the second none are used if the first part is
stopped. -/
theorem Touches.append (ht : t.Touches xs) (hu : u.Touches ys) : (t ++ u).Touches (xs ++ ys) := by
  cases hstop : t.error? with
  | some error =>
    rw [append_of_error?_eq_some hstop]
    refine ⟨fun slot hslot => List.mem_append_left ys (ht.only slot hslot), fun hnone => ?_⟩
    rw [hstop] at hnone
    cases hnone
  | none =>
    have hslots : Instruction.slots (t ++ u).instructions =
        Instruction.slots t.instructions ++ Instruction.slots u.instructions := by
      rw [instructions_append hstop, Instruction.slots, List.filterMap_append]
      rfl
    constructor
    · intro slot hslot
      rw [hslots, List.mem_append] at hslot
      exact List.mem_append.mpr (hslot.imp (ht.only slot) (hu.only slot))
    · intro hnone slot hslot
      rw [error?_append, Option.or_eq_none_iff] at hnone
      rw [hslots, List.mem_append]
      exact (List.mem_append.mp hslot).imp (ht.all hnone.1 slot) (hu.all hnone.2 slot)

/-- The order of the slots does not matter. -/
theorem Touches.of_mem_iff (ht : t.Touches xs) (h : ∀ slot, slot ∈ xs ↔ slot ∈ ys) :
    t.Touches ys :=
  ⟨fun slot hslot => (h slot).mp (ht.only slot hslot),
    fun hnone slot hslot => ht.all hnone slot ((h slot).mpr hslot)⟩

/-- A step that hands nothing over uses no variable. -/
theorem touches_nil (ht : t.instructions = []) : t.Touches [] :=
  ⟨by simp [Instruction.slots, ht], by simp⟩

/-- Where lowering stops, nothing is said of the variables that are not come to. -/
theorem touches_stop (error : LowerError) (slots : List UInt16) : (stop error).Touches slots :=
  ⟨fun _ hslot => absurd hslot List.not_mem_nil, fun hnone => by cases hnone⟩

/-- An instruction uses at most one variable. -/
theorem touches_put (i : Instruction) : (put i).Touches i.slot?.toList := by
  have hslots : Instruction.slots [i] = i.slot?.toList := by
    cases hi : i.slot? <;> simp [Instruction.slots, hi]
  exact ⟨by simp [hslots], by simp [hslots]⟩

end Transcript

open Transcript Occurrence

namespace Part

/-- The slots of the variables that a part uses. -/
@[simp] def slots : Part → List UInt16
  | arrive .. => []
  | pass .. => []
  | give instruction => instruction.slot?.toList
  | part => Occurrence.slots part.occurrences

/-- Parts in turn use their variables if what is lowered in them does. -/
theorem touches_inTurn {limit : Nat} {parts : List Part}
    (h : ∀ e depth, .below e depth ∈ parts → (e.transcript limit depth).Touches
      (Occurrence.slots (e.occurrencesAt false depth))) :
    (inTurn limit parts).Touches (parts.flatMap slots) := by
  induction parts with
  | nil => exact touches_nil rfl
  | cons part rest ih =>
    have hpart : (part.transcript limit).Touches part.slots := by
      cases part with
      | arrive o =>
        exact (touches_nil (instructions_enter _ _ _)).append
          (touches_nil (instructions_reportLocals _))
      | pass => exact touches_nil rfl
      | give instruction => exact touches_put instruction
      | misplaced => exact touches_stop _ _
      | unassignable => exact (touches_nil (t := report _) rfl).append (touches_stop _ _)
      | below e depth => exact h e depth (by simp)
    rw [List.flatMap_cons, inTurn]
    exact hpart.append (ih fun e depth he => h e depth (by simp [he]))

end Part

namespace Expr

/-- The slots of operands. -/
theorem flatMap_slots_operandParts (depth : Nat) (es : List Expr) :
    (operandParts depth es).flatMap Part.slots = slots (occurrencesAll depth es) := by
  induction es with
  | nil => rfl
  | cons e rest ih =>
    rw [occurrencesAll, slots_append, ← ih]
    rfl

/-- The slots of elements. Storing them uses no variable. -/
theorem flatMap_slots_elementParts (depth position : Nat) (es : List Expr) :
    (elementParts depth position es).flatMap Part.slots = slots (occurrencesAll depth es) := by
  induction es generalizing position with
  | nil => rfl
  | cons e rest ih =>
    rw [occurrencesAll, slots_append, ← ih (position + 1)]
    rfl

/-- The parts of a node have the slots of the variables that occur in it. A variable that is
assigned to occurs before the value and is stored to after it. -/
theorem mem_slots_parts {e : Expr} {depth : Nat} {slot : UInt16} :
    slot ∈ (e.parts depth).flatMap Part.slots ↔ slot ∈ slots (e.occurrencesAt false depth) := by
  cases e using shape_induction with
  | assignOther id left right hleft =>
    simp [parts, laterParts_assign_of_not_assignable hleft, occurrencesAt, slot?]
  | block id ty locals statements result =>
    have hreturn : (if ty.isVoid then Instruction.returnVoid else .returnValue).slot? = none := by
      cases ty.isVoid <;> rfl
    simp [parts, laterParts, occurrencesAt, slot?, flatMap_slots_operandParts, hreturn]
  | assignLocal id leftId var right =>
    simp [parts, laterParts, occurrencesAt, slot?, Instruction.slot?, or_comm]
  | constant | parameter | member | arrayIndex | assignMember | assignElement | callStatic
  | callVirtual | newArray =>
    simp [parts, laterParts, occurrencesAt, slot?, Instruction.slot?, flatMap_slots_operandParts,
      flatMap_slots_elementParts]

/-- Lowering uses the variables that occur in the expression. -/
theorem touches_transcript (e : Expr) (limit depth : Nat) :
    (e.transcript limit depth).Touches (slots (e.occurrencesAt false depth)) := by
  induction e, depth using parts_induction with
  | step e depth ih =>
    rw [transcript_eq_inTurn]
    exact (Part.touches_inTurn ih).of_mem_iff fun slot => mem_slots_parts

end Expr

/-- Recording some instructions makes room for the variables that they use. -/
theorem Code.maxLocals_feed (code : Code) (is : List Instruction) :
    (Code.sink.feed code is).maxLocals =
      max code.maxLocals (frameFor (Instruction.slots is)) := by
  induction is generalizing code with
  | nil => simp [Instruction.slots, frameFor]
  | cons i rest ih =>
    have hrecord : (code.record i).maxLocals = max code.maxLocals i.frameSize := rfl
    rw [Sink.feed_cons, ih]
    change max (code.record i).maxLocals _ = _
    rw [hrecord, i.frameSize_eq]
    cases hslot : i.slot? with
    | none => simp [Instruction.slots, hslot]
    | some slot => simp [Instruction.slots, hslot, frameFor, Nat.max_assoc]

/-- The frame has all variables that the instructions use. -/
def Code.Covers (code : Code) : Prop :=
  ∀ slot ∈ Instruction.slots code.instructions.toList, slot.toNat < code.maxLocals

/-- A lowering that goes through makes room for the variables that occur in the tree, wherever they
stand, and for nothing else. One that is stopped makes no more room than that, and enough for all
that was handed over. -/
theorem Expr.maxLocals_lowerInto (e : Expr) (limit : Nat) (code : Code) :
    let out := e.lowerInto Code.sink code limit
    let needed := max code.maxLocals (frameFor (Occurrence.slots e.occurrences))
    (out.error? = none → out.sink.maxLocals = needed) ∧
      out.sink.maxLocals ≤ needed ∧ code.maxLocals ≤ out.sink.maxLocals ∧
      (∀ slot ∈ Instruction.slots (out.sink.since code.length),
        slot.toNat < out.sink.maxLocals) ∧
      (code.Covers → out.sink.Covers) := by
  have htouches := e.touches_transcript limit 0
  have honly := frameFor_mono htouches.only
  rw [lowerInto_eq]
  simp only [Code.since_feed, Code.maxLocals_feed]
  have hnew : ∀ slot ∈ Instruction.slots (e.transcript limit 0).instructions,
      slot.toNat < max code.maxLocals
        (frameFor (Instruction.slots (e.transcript limit 0).instructions)) := by
    intro slot hslot
    have := lt_frameFor_of_mem hslot
    omega
  refine ⟨fun hok => ?_, ?_, by omega, hnew, fun hcovers slot hslot => ?_⟩
  · have hall := frameFor_mono (htouches.all hok)
    unfold occurrences
    omega
  · unfold occurrences
    omega
  · rw [Code.instructions_feed, Instruction.slots, List.filterMap_append, List.mem_append] at hslot
    rw [Code.maxLocals_feed]
    rcases hslot with hold | hslot
    · have := hcovers slot hold
      omega
    · exact hnew slot hslot

namespace Sample

/-- A block that declares a variable in slot 9 without using it. The variable in slot 4 is assigned
to in an inner block and never read. -/
def spare : Expr :=
  .block 5 .int [⟨9, "spare", some .int⟩]
    [.block 3 .void [] [] (.assign 2 (.parameter 0 ⟨4, "x", some .int⟩)
      (.parameter 1 ⟨2, "y", some .int⟩))]
    (.constant 4 (.int 0))

end Sample

/-- The sample needs five slots. If it is stopped before the inner assignment, the frame stays as it
was. -/
theorem Expr.maxLocals_lowerInto_spare :
    let code : Code := ⟨#[.loadLocal 1], 2, 1, 1⟩
    (Sample.spare.lowerInto Code.sink code 3).error? = none ∧
      (Sample.spare.lowerInto Code.sink code 3).sink.maxLocals = 5 ∧
      (Sample.spare.lowerInto Code.sink code 2).error? ≠ none ∧
      (Sample.spare.lowerInto Code.sink code 2).sink.maxLocals ≤ 5 ∧
      (Sample.spare.lowerInto Code.sink code 2).sink.Covers := by
  have hok : (Sample.spare.lowerInto Code.sink ⟨#[.loadLocal 1], 2, 1, 1⟩ 3).error? = none := by
    decide
  obtain ⟨hsize, -⟩ := maxLocals_lowerInto Sample.spare 3 ⟨#[.loadLocal 1], 2, 1, 1⟩
  obtain ⟨-, hle, -, -, hcovers⟩ := maxLocals_lowerInto Sample.spare 2 ⟨#[.loadLocal 1], 2, 1, 1⟩
  exact ⟨hok, hsize hok, by decide, hle, hcovers (by simp [Code.Covers, Instruction.slots,
    Instruction.slot?])⟩

end MethodBody
