import MethodBody.Proofs.Playback
import Mathlib.Data.List.Forall2
import Mathlib.Data.List.Induction

/-!
# What a recorder knows

A recorder keeps three counters beside its instructions and updates them one instruction at a time.
All three can be told from the list of instructions, so a recorder is known once its instructions
are. Equality by value of recorders comes down to that of their instructions, which is not
reflexive.
-/

namespace MethodBody

/-- The events that a sink reports while it is given some instructions. -/
def Sink.told {σ : Type} (sink : Sink σ) : σ → List Instruction → List Event
  | _, [] => []
  | state, i :: rest => (sink.accept state i).2 ++ sink.told (sink.accept state i).1 rest

/-- What a sink says of two lists in turn. -/
theorem Sink.told_append {σ : Type} (sink : Sink σ) (start : σ) (xs ys : List Instruction) :
    sink.told start (xs ++ ys) = sink.told start xs ++ sink.told (sink.feed start xs) ys := by
  induction xs generalizing start with
  | nil => rfl
  | cons i rest ih => simp [told, ih]

namespace Instruction

/-- The slot of the variable that is loaded or stored to. -/
def slot? : Instruction → Option UInt16
  | loadLocal slot => some slot
  | storeLocal slot => some slot
  | _ => none

/-- How much the stack grows, which is negative if it shrinks. -/
def net (i : Instruction) : Int := Int.ofNat i.effect.pushes - Int.ofNat i.effect.pops

/-- How much the stack grows by some instructions. -/
def balance : List Instruction → Int
  | [] => 0
  | i :: rest => i.net + balance rest

/-- The instructions after the last return. -/
def sinceReturn (is : List Instruction) : List Instruction :=
  (is.reverse.takeWhile fun i => !i.isReturn).reverse

/-- One more instruction adds its own balance. -/
theorem balance_append_singleton (is : List Instruction) (i : Instruction) :
    balance (is ++ [i]) = balance is + i.net := by
  induction is with
  | nil => simp [balance]
  | cons head tail ih =>
    simp only [List.cons_append, balance, ih]
    omega

/-- Right after a return nothing was done since. -/
theorem sinceReturn_append_of_return (is : List Instruction) {i : Instruction}
    (hi : i.isReturn = true) : sinceReturn (is ++ [i]) = [] := by
  simp [sinceReturn, hi]

/-- Any other instruction adds to what was done since the last return. -/
theorem sinceReturn_append_of_not_return (is : List Instruction) {i : Instruction}
    (hi : i.isReturn = false) : sinceReturn (is ++ [i]) = sinceReturn is ++ [i] := by
  simp [sinceReturn, hi]

/-- A return leaves nothing. -/
theorem pushes_of_return {i : Instruction} (hi : i.isReturn = true) : i.effect.pushes = 0 := by
  cases i <;> simp_all [isReturn, effect]

/-- The frame that an instruction needs ends with the slot that it uses. -/
theorem frameSize_eq (i : Instruction) :
    i.frameSize = match i.slot? with
      | some slot => slot.toNat + 1
      | none => 0 := by
  cases i <;> rfl

end Instruction

namespace Code

/-- Recording an instruction that does not return moves the stack by its effect. -/
theorem depth_record (code : Code) {i : Instruction} (hreturn : i.isReturn = false) :
    (code.record i).depth = code.depth - i.effect.pops + i.effect.pushes := by
  simp [record, hreturn]

/-- The greatest depth is kept up to date with each instruction. -/
theorem maxStack_record (code : Code) (i : Instruction) :
    (code.record i).maxStack = max code.maxStack (code.record i).depth := rfl

/-- The recorder that was given some instructions, from the beginning. -/
def recorded (is : List Instruction) : Code := Code.sink.feed Code.empty is

/-- One more instruction is recorded after the others. -/
theorem recorded_append_singleton (is : List Instruction) (i : Instruction) :
    recorded (is ++ [i]) = (recorded is).record i := by
  rw [recorded, Sink.feed_append]
  rfl

/-- What was recorded is what was given. -/
theorem instructions_recorded (is : List Instruction) : (recorded is).instructions.toList = is := by
  simp [recorded, Code.empty]

/-- The warnings of a recorder that was given some instructions. -/
def warned (is : List Instruction) : List Event := Code.sink.told Code.empty is

/-- One more instruction adds its own warning, if there is one. -/
theorem warned_append_singleton (is : List Instruction) (i : Instruction) :
    warned (is ++ [i]) = warned is ++ ((recorded is).warning? i).toList := by
  rw [warned, Sink.told_append]
  simp [Sink.told, Code.sink, warned, recorded]

/-- The greatest height is one that the stack had, and none that it had is greater. -/
theorem maxStack_recorded (is : List Instruction) :
    (∃ p, p <+: is ∧ (recorded p).depth = (recorded is).maxStack) ∧
      ∀ p, p <+: is → (recorded p).depth ≤ (recorded is).maxStack := by
  induction is using List.reverseRecOn with
  | nil =>
    refine ⟨⟨[], List.prefix_rfl, rfl⟩, fun p hp => ?_⟩
    rw [List.prefix_nil.mp hp]
    exact Nat.le_refl _
  | append_singleton is i ih =>
    obtain ⟨⟨p, hp, hdepth⟩, hle⟩ := ih
    have hmax : (recorded (is ++ [i])).maxStack =
        max (recorded is).maxStack (recorded (is ++ [i])).depth := by
      rw [recorded_append_singleton, maxStack_record]
    constructor
    · by_cases hnew : (recorded is).maxStack ≤ (recorded (is ++ [i])).depth
      · exact ⟨is ++ [i], List.prefix_rfl, by omega⟩
      · exact ⟨p, hp.trans (List.prefix_append is [i]), by omega⟩
    · intro q hq
      rcases List.prefix_concat_iff.mp hq with rfl | hq
      · omega
      · have := hle q hq
        omega

/-- The frame ends with the greatest slot that is used. -/
theorem maxLocals_recorded (is : List Instruction) :
    (∀ slot ∈ is.filterMap Instruction.slot?, slot.toNat + 1 ≤ (recorded is).maxLocals) ∧
      ((recorded is).maxLocals = 0 ∨
        ∃ slot ∈ is.filterMap Instruction.slot?, (recorded is).maxLocals = slot.toNat + 1) := by
  induction is using List.reverseRecOn with
  | nil => simp [recorded, Code.empty]
  | append_singleton is i ih =>
    obtain ⟨hle, hreached⟩ := ih
    have hmax : (recorded (is ++ [i])).maxLocals =
        max (recorded is).maxLocals i.frameSize := by
      rw [recorded_append_singleton]
      rfl
    rw [i.frameSize_eq] at hmax
    rw [List.filterMap_append]
    cases hslot : i.slot? with
    | none =>
      simp only [hslot, Nat.max_zero] at hmax
      simp only [List.filterMap_cons, hslot, List.filterMap_nil, List.append_nil, hmax]
      exact ⟨hle, hreached⟩
    | some new =>
      simp only [hslot] at hmax
      simp only [List.filterMap_cons, hslot, List.filterMap_nil, List.mem_append,
        List.mem_singleton]
      constructor
      · rintro slot (hold | rfl)
        · have := hle slot hold
          omega
        · omega
      · right
        by_cases hnew : (recorded is).maxLocals ≤ new.toNat + 1
        · exact ⟨new, .inr rfl, by omega⟩
        · rcases hreached with hzero | ⟨slot, hold, heq⟩
          · omega
          · exact ⟨slot, .inl hold, by omega⟩

/-- The stack is at least as high as the instructions since the last return make it. -/
theorem balance_le_depth (is : List Instruction) :
    Instruction.balance (Instruction.sinceReturn is) ≤ Int.ofNat (recorded is).depth := by
  induction is using List.reverseRecOn with
  | nil => exact Int.le_refl 0
  | append_singleton is i ih =>
    rw [recorded_append_singleton]
    cases hreturn : i.isReturn with
    | true =>
      rw [Instruction.sinceReturn_append_of_return is hreturn]
      exact Int.natCast_nonneg _
    | false =>
      rw [Instruction.sinceReturn_append_of_not_return is hreturn,
        Instruction.balance_append_singleton, depth_record _ hreturn]
      simp only [Instruction.net, Int.ofNat_eq_natCast] at ih ⊢
      omega

/-- The stack is exactly as high if no operand was found missing. -/
theorem depth_eq_balance {is : List Instruction} (hquiet : warned is = []) :
    Int.ofNat (recorded is).depth = Instruction.balance (Instruction.sinceReturn is) := by
  induction is using List.reverseRecOn with
  | nil => rfl
  | append_singleton is i ih =>
    rw [warned_append_singleton, List.append_eq_nil_iff] at hquiet
    obtain ⟨hbefore, hnow⟩ := hquiet
    have hpops : i.effect.pops ≤ (recorded is).depth := by
      simpa [warning?] using hnow
    have ih := ih hbefore
    rw [recorded_append_singleton]
    cases hreturn : i.isReturn with
    | true =>
      rw [Instruction.sinceReturn_append_of_return is hreturn]
      simp [record, hreturn, Instruction.pushes_of_return, Instruction.balance]
    | false =>
      rw [Instruction.sinceReturn_append_of_not_return is hreturn,
        Instruction.balance_append_singleton, depth_record _ hreturn]
      simp only [Instruction.net, Int.ofNat_eq_natCast] at ih ⊢
      omega

/-- All that can be told of a recorder from its instructions. -/
structure Reflects (code : Code) (is : List Instruction) : Prop where
  /-- It holds exactly these instructions, in order. -/
  instructions : code.instructions.toList = is
  /-- Another recorder that is given what this one holds becomes the same in all respects. -/
  replay : Code.sink.feed Code.empty code.instructions.toList = code
  /-- The greatest height was reached after some first part. -/
  maxStack_reached : ∃ p, p <+: is ∧ (recorded p).depth = code.maxStack
  /-- No first part reached a greater height. -/
  maxStack_greatest : ∀ p, p <+: is → (recorded p).depth ≤ code.maxStack
  /-- Without variables there is no frame. -/
  maxLocals_none : is.filterMap Instruction.slot? = [] → code.maxLocals = 0
  /-- Otherwise the frame ends with one of the slots that are used. -/
  maxLocals_reached : is.filterMap Instruction.slot? ≠ [] →
    ∃ slot ∈ is.filterMap Instruction.slot?, code.maxLocals = slot.toNat + 1
  /-- It ends with the greatest of them. -/
  maxLocals_greatest : ∀ slot ∈ is.filterMap Instruction.slot?, slot.toNat + 1 ≤ code.maxLocals
  /-- There are no more slots than that. -/
  maxLocals_le : code.maxLocals ≤ 65536
  /-- After every first part the stack is at least as high as what was recorded since the last
  return makes it. -/
  depth_ge : ∀ p, p <+: is →
    Instruction.balance (Instruction.sinceReturn p) ≤ Int.ofNat (recorded p).depth
  /-- It is exactly as high if no operand was found missing. -/
  depth_eq : warned is = [] → ∀ p, p <+: is →
    Int.ofNat (recorded p).depth = Instruction.balance (Instruction.sinceReturn p)

/-- A recorder reflects all that it was given, since each instruction keeps it doing so. -/
theorem reflects_recorded (is : List Instruction) : (recorded is).Reflects is := by
  obtain ⟨hreached, hgreatest⟩ := maxStack_recorded is
  obtain ⟨hslots, hlast⟩ := maxLocals_recorded is
  refine ⟨instructions_recorded is, by rw [instructions_recorded]; rfl, hreached, hgreatest, ?_, ?_,
    hslots, ?_, fun p _ => balance_le_depth p, ?_⟩
  · intro hnone
    rcases hlast with hzero | ⟨slot, hslot, -⟩
    · exact hzero
    · simp [hnone] at hslot
  · intro hsome
    rcases hlast with hzero | hreached
    · obtain ⟨slot, hslot⟩ := List.exists_mem_of_ne_nil _ hsome
      have := hslots slot hslot
      omega
    · exact hreached
  · rcases hlast with hzero | ⟨slot, -, hslot⟩
    · omega
    · have := slot.toNat_lt
      omega
  · rintro hquiet p ⟨rest, rfl⟩
    refine depth_eq_balance ?_
    rw [warned, Sink.told_append, List.append_eq_nil_iff] at hquiet
    exact hquiet.1

end Code

/-! ## Equality by value -/

namespace Binary.Datum

/-- A datum equals itself unless it is not a number. -/
theorem equal_self {d : Datum} (hd : d ≠ .nan) : d.equal d = true := by
  cases d with
  | nan => exact absurd rfl hd
  | infinite negative => simp [equal]
  | finite negative mantissa exponent narrow => simp [equal]

/-- What is not a number equals nothing. -/
theorem not_equal_nan (d : Datum) : nan.equal d = false ∧ d.equal nan = false := by
  cases d <;> exact ⟨rfl, rfl⟩

/-- Numbers are equal if they are given by the same bits once the negative zero is replaced by the
positive one. -/
theorem equal_of_merged {β : Type} [DecidableEq β] (value : β → Datum) {negative positive x y : β}
    (hzero : ∀ a b, a = negative ∨ a = positive → b = negative ∨ b = positive →
      (value a).equal (value b) = true)
    (hx : value x ≠ .nan)
    (h : (if x = negative then positive else x) = if y = negative then positive else y) :
    (value x).equal (value y) = true := by
  by_cases hxn : x = negative
  · by_cases hyn : y = negative
    · exact hzero x y (.inl hxn) (.inl hyn)
    · rw [if_pos hxn, if_neg hyn] at h
      exact hzero x y (.inl hxn) (.inr h.symm)
  · by_cases hyn : y = negative
    · rw [if_neg hxn, if_pos hyn] at h
      exact hzero x y (.inr h) (.inl hyn)
    · rw [if_neg hxn, if_neg hyn] at h
      subst h
      exact equal_self hx

end Binary.Datum

namespace Literal

/-- Whether the literal is a floating-point NaN. -/
def isNaN : Literal → Bool
  | float bits => Binary.single.decode bits.toNat = .nan
  | double bits => Binary.double.decode bits.toNat = .nan
  | _ => false

/-- The literal without the sign of a zero. -/
def unsignedZero : Literal → Literal
  | float bits => float (if bits = 0x80000000 then 0 else bits)
  | double bits => double (if bits = 0x8000000000000000 then 0 else bits)
  | literal => literal

/-- A NaN equals nothing. -/
theorem not_equal_of_isNaN {a : Literal} (ha : a.isNaN = true) (b : Literal) :
    a.equal b = false ∧ b.equal a = false := by
  cases a with
  | float x =>
    have hx : Binary.single.decode x.toNat = .nan := by simpa [isNaN] using ha
    cases b <;> simp [equal, hx, Binary.Datum.not_equal_nan]
  | double x =>
    have hx : Binary.double.decode x.toNat = .nan := by simpa [isNaN] using ha
    cases b <;> simp [equal, hx, Binary.Datum.not_equal_nan]
  | null | bool | int | long | str => simp [isNaN] at ha

/-- Literals that differ in the sign of a zero at most are equal, unless they are NaNs. -/
theorem equal_of_unsignedZero_eq {a b : Literal} (ha : a.isNaN = false)
    (h : a.unsignedZero = b.unsignedZero) : a.equal b = true := by
  cases a with
  | float x =>
    cases b with
    | float y =>
      have hx : Binary.single.decode x.toNat ≠ .nan := by simpa [isNaN] using ha
      refine Binary.Datum.equal_of_merged (fun bits : UInt32 => Binary.single.decode bits.toNat)
        ?_ hx (by simpa [unsignedZero] using h)
      rintro a b (rfl | rfl) (rfl | rfl) <;> decide
    | null | bool | int | long | double | str => simp [unsignedZero] at h
  | double x =>
    cases b with
    | double y =>
      have hx : Binary.double.decode x.toNat ≠ .nan := by simpa [isNaN] using ha
      refine Binary.Datum.equal_of_merged (fun bits : UInt64 => Binary.double.decode bits.toNat)
        ?_ hx (by simpa [unsignedZero] using h)
      rintro a b (rfl | rfl) (rfl | rfl) <;> decide
    | null | bool | int | long | float | str => simp [unsignedZero] at h
  | null | bool | int | long | str => cases b <;> simp_all [unsignedZero, equal]

end Literal

namespace Instruction

/-- Whether a floating-point NaN is pushed. -/
def pushesNaN : Instruction → Bool
  | pushLiteral value => value.isNaN
  | _ => false

/-- The instruction without the sign of a zero that it pushes. -/
def unsignedZero : Instruction → Instruction
  | pushLiteral value => pushLiteral value.unsignedZero
  | i => i

/-- Instructions that are equal by value have the same effect on the frame. -/
theorem effect_eq_of_equal {i j : Instruction} (h : i.equal j = true) :
    i.effect = j.effect ∧ i.isReturn = j.isReturn ∧ i.frameSize = j.frameSize := by
  unfold equal at h
  split at h
  · exact ⟨rfl, rfl, rfl⟩
  · obtain rfl := eq_of_beq h
    exact ⟨rfl, rfl, rfl⟩

/-- An instruction that pushes what is not a number equals none. -/
theorem not_equal_of_pushesNaN {i : Instruction} (hi : i.pushesNaN = true) (j : Instruction) :
    i.equal j = false ∧ j.equal i = false := by
  cases i with
  | pushLiteral value =>
    cases j with
    | pushLiteral value' => exact Literal.not_equal_of_isNaN hi value'
    | _ => simp [equal]
  | _ => simp [pushesNaN] at hi

/-- Other instructions are equal if they agree up to the sign of zeros. -/
theorem equal_of_unsignedZero_eq {i j : Instruction} (hi : i.pushesNaN = false)
    (h : i.unsignedZero = j.unsignedZero) : i.equal j = true := by
  cases i with
  | pushLiteral value =>
    cases j with
    | pushLiteral value' =>
      exact Literal.equal_of_unsignedZero_eq hi (by simpa [unsignedZero] using h)
    | _ => simp [unsignedZero] at h
  | _ => cases j <;> simp_all [unsignedZero, equal]

variable {is js : List Instruction}

/-- Lists of instructions that are equal one by one hold no NaN. -/
theorem pushesNaN_eq_false (h : List.Forall₂ (fun i j => i.equal j = true) is js) :
    ∀ i ∈ is ++ js, i.pushesNaN = false := by
  induction h with
  | nil => simp
  | @cons i j is js hij _ ih =>
    have hi : i.pushesNaN = false := by
      by_contra hnan
      simp [(i.not_equal_of_pushesNaN (by simpa using hnan) j).1] at hij
    have hj : j.pushesNaN = false := by
      by_contra hnan
      simp [(j.not_equal_of_pushesNaN (by simpa using hnan) i).2] at hij
    intro x hx
    simp only [List.cons_append, List.mem_cons, List.mem_append] at hx ih
    rcases hx with rfl | hx | rfl | hx
    · exact hi
    · exact ih x (.inl hx)
    · exact hj
    · exact ih x (.inr hx)

/-- Lists without NaNs that differ in the signs of zeros at most are equal one by one. -/
theorem forall₂_of_unsignedZero_eq (hnan : ∀ i ∈ is, i.pushesNaN = false)
    (h : is.map unsignedZero = js.map unsignedZero) :
    List.Forall₂ (fun i j => i.equal j = true) is js := by
  induction is generalizing js with
  | nil =>
    obtain rfl : js = [] := by simpa using h.symm
    exact .nil
  | cons i is ih =>
    cases js with
    | nil => simp at h
    | cons j js =>
      simp only [List.map_cons, List.cons.injEq] at h
      exact .cons (equal_of_unsignedZero_eq (hnan i (by simp)) h.1)
        (ih (fun x hx => hnan x (by simp [hx])) h.2)

end Instruction

namespace Code

variable {is js : List Instruction}

/-- Equality by value is that of the instructions one by one and of the counters. -/
theorem equal_iff (a b : Code) :
    a.equal b = true ↔
      List.Forall₂ (fun i j => i.equal j = true) a.instructions.toList b.instructions.toList ∧
        a.maxLocals = b.maxLocals ∧ a.maxStack = b.maxStack ∧ a.depth = b.depth := by
  rw [List.forall₂_iff_zip]
  simp [equal, and_assoc]

/-- Recorders with the same counters that are given instructions equal by value have the same
counters afterwards. -/
theorem feed_counters (h : List.Forall₂ (fun i j => i.equal j = true) is js) {a b : Code}
    (hlocals : a.maxLocals = b.maxLocals) (hmax : a.maxStack = b.maxStack)
    (hdepth : a.depth = b.depth) :
    (Code.sink.feed a is).maxLocals = (Code.sink.feed b js).maxLocals ∧
      (Code.sink.feed a is).maxStack = (Code.sink.feed b js).maxStack ∧
      (Code.sink.feed a is).depth = (Code.sink.feed b js).depth := by
  induction h generalizing a b with
  | nil => exact ⟨hlocals, hmax, hdepth⟩
  | cons hij _ ih =>
    obtain ⟨heffect, hreturn, hframe⟩ := Instruction.effect_eq_of_equal hij
    apply ih <;> simp [Code.sink, record, hlocals, hmax, hdepth, heffect, hreturn, hframe]

/-- Recorders are equal by value exactly if their instructions are, one by one. -/
theorem equal_recorded_iff :
    (recorded is).equal (recorded js) = true ↔
      List.Forall₂ (fun i j => i.equal j = true) is js := by
  rw [equal_iff, instructions_recorded, instructions_recorded]
  exact ⟨fun h => h.1, fun h => ⟨h, feed_counters h rfl rfl rfl⟩⟩

/-- A recorder is known once its instructions are. All that it holds can be told from them, and
recorders are equal by value exactly if they hold as many instructions and these are equal one by
one. So they never are if a NaN is among the instructions, and always if there is none and they
differ in the signs of zeros at most. -/
theorem recorded_by_instructions (is js : List Instruction) :
    (recorded is).Reflects is ∧
      ((recorded is).equal (recorded js) = true ↔
        is.length = js.length ∧ ∀ pair ∈ is.zip js, pair.1.equal pair.2 = true) ∧
      ((∃ i ∈ is ++ js, i.pushesNaN = true) → (recorded is).equal (recorded js) = false) ∧
      ((∀ i ∈ is, i.pushesNaN = false) →
        is.map Instruction.unsignedZero = js.map Instruction.unsignedZero →
          (recorded is).equal (recorded js) = true) := by
  refine ⟨reflects_recorded is, ?_, ?_, ?_⟩
  · rw [equal_recorded_iff, List.forall₂_iff_zip]
    simp
  · rintro ⟨i, hi, hnan⟩
    by_contra hequal
    have hall := equal_recorded_iff.mp (by simpa using hequal)
    simp [Instruction.pushesNaN_eq_false hall i hi] at hnan
  · intro hnan hzero
    exact equal_recorded_iff.mpr (Instruction.forall₂_of_unsignedZero_eq hnan hzero)

end Code

end MethodBody
