import MethodBody.Proofs.Meaning
import MethodBody.Proofs.Parts
import MethodBody.Proofs.Recorder

/-!
# Missing operands

How many operands an instruction needs is said by its stack notation: all values to the left of the
arrow. A recorder warns if an instruction takes more off the stack than there is. This is the same
for all instructions but one: duplicating a reference needs a reference, but takes none off, and is
never warned about. So code that was recorded without a warning runs on a machine exactly if no
reference is duplicated on an empty stack.
-/

namespace MethodBody

namespace Instruction

/-- How many values an instruction needs on the stack. -/
def operands : Instruction → Nat
  | pushLiteral _ => 0
  | loadLocal _ => 0
  | storeLocal _ => 1
  | getField _ => 1
  | putField _ => 2
  | newArray _ => 1
  | storeArrayElement => 3
  | dupArrayRef => 1
  | pushInt _ => 0
  | invokeVirtual sig => sig.params.length + 1
  | invokeStatic sig => sig.params.length
  | returnValue => 1
  | returnVoid => 0

/-- Duplicating a reference takes nothing off the stack, and all else takes off what it needs. -/
theorem pops_eq (i : Instruction) :
    i.effect.pops = if i = .dupArrayRef then 0 else i.operands := by
  cases i <;> simp [effect, operands]

end Instruction

namespace Machine

universe u

variable {V S : Type u}

/-- The stack that is left. After a return it is empty. -/
def leftStack : Config V S → List V
  | .running stack _ => stack
  | .returned _ _ => []

/-- The state that is left. -/
def leftState : Config V S → S
  | .running _ s => s
  | .returned _ s => s

/-- Runs instructions one after the other, also those that follow a return, which find an empty
stack. It is undefined if operands are missing. -/
def runOn (m : Machine V S) : List Instruction → List V → S → Option (List V × S)
  | [], stack, s => some (stack, s)
  | i :: rest, stack, s =>
    (m.step i stack s).bind fun next => m.runOn rest (leftStack next) (leftState next)

/-- A call leaves as many values as its signature declares. -/
theorem length_resultOf (sig : Signature) (value : V) :
    (resultOf sig value).toList.length = Instruction.resultSize sig := by
  unfold resultOf Instruction.resultSize
  cases sig.returnsValue <;> rfl

/-- Enough values are taken off in order, and what was below them is left. -/
theorem takeTop_of_le {n : Nat} {stack : List V} (h : n ≤ stack.length) :
    takeTop n stack = some ((stack.take n).reverse, stack.drop n) := if_pos h

/-- An instruction can be done exactly if all operands are there. Then it moves the height of the
stack by its effect. A return leaves nothing and ends the method, and nothing else ends it. -/
theorem step_cases (m : Machine V S) (i : Instruction) (stack : List V) (s : S) :
    (stack.length < i.operands ∧ m.step i stack s = none) ∨
      (i.operands ≤ stack.length ∧ ∃ next, m.step i stack s = some next ∧
        (leftStack next).length =
          (if i.isReturn then 0 else stack.length - i.effect.pops) + i.effect.pushes ∧
        (i.isReturn = true ↔ ∃ value? s', next = .returned value? s')) := by
  cases i with
  | pushLiteral | loadLocal | pushInt | returnVoid =>
    exact .inr ⟨Nat.zero_le _, _, rfl, rfl, by simp [Instruction.isReturn]⟩
  | storeLocal | getField | newArray | dupArrayRef | returnValue =>
    cases stack with
    | nil => exact .inl ⟨Nat.zero_lt_one, rfl⟩
    | cons value rest =>
      exact .inr ⟨Nat.le_add_left 1 _, _, rfl, rfl, by simp [Instruction.isReturn]⟩
  | putField field =>
    rcases stack with - | ⟨value, - | ⟨object, rest⟩⟩
    · exact .inl ⟨Nat.zero_lt_two, rfl⟩
    · exact .inl ⟨Nat.one_lt_two, rfl⟩
    · exact .inr ⟨Nat.le_add_left 2 _, _, rfl, rfl, by simp [Instruction.isReturn]⟩
  | storeArrayElement =>
    rcases stack with - | ⟨value, - | ⟨index, - | ⟨array, rest⟩⟩⟩
    · exact .inl ⟨Nat.zero_lt_succ 2, rfl⟩
    · exact .inl ⟨Nat.succ_lt_succ (Nat.zero_lt_succ 1), rfl⟩
    · exact .inl ⟨Nat.lt_succ_self 2, rfl⟩
    · exact .inr ⟨Nat.le_add_left 3 _, _, rfl, rfl, by simp [Instruction.isReturn]⟩
  | invokeStatic sig =>
    by_cases hargs : sig.params.length ≤ stack.length
    · refine .inr ⟨hargs, ?_⟩
      change ∃ next, (takeTop sig.params.length stack).map _ = some next ∧ _
      rw [takeTop_of_le hargs]
      refine ⟨_, rfl, ?_, by simp [Instruction.isReturn]⟩
      simp [leftStack, length_resultOf, Instruction.effect, Instruction.isReturn, Nat.add_comm]
    · refine .inl ⟨Nat.lt_of_not_le hargs, ?_⟩
      change (takeTop sig.params.length stack).map _ = none
      rw [takeTop, if_neg hargs]
      rfl
  | invokeVirtual sig =>
    by_cases hargs : sig.params.length ≤ stack.length
    · have hdrop : (stack.drop sig.params.length).length = stack.length - sig.params.length :=
        List.length_drop
      change (_ ∧ (takeTop sig.params.length stack).bind _ = none) ∨
        _ ∧ ∃ next, (takeTop sig.params.length stack).bind _ = some next ∧ _
      rw [takeTop_of_le hargs]
      -- The receiver lies below the arguments, if there is one.
      cases hrest : stack.drop sig.params.length with
      | nil =>
        rw [hrest, List.length_nil] at hdrop
        refine .inl ⟨?_, rfl⟩
        simp only [Instruction.operands]
        omega
      | cons receiver rest =>
        rw [hrest, List.length_cons] at hdrop
        refine .inr ⟨?_, _, rfl, ?_, by simp [Instruction.isReturn]⟩
        · simp only [Instruction.operands]
          omega
        · simp only [leftStack, List.length_append, length_resultOf, Instruction.isReturn,
            Bool.false_eq_true, if_false, Instruction.effect]
          omega
    · refine .inl ⟨?_, ?_⟩
      · simp only [Instruction.operands]
        omega
      · change (takeTop sig.params.length stack).bind _ = none
        rw [takeTop, if_neg hargs]
        rfl

/-- Running stops at a return that something follows, and running on goes through it. That is all in
which the two differ. -/
theorem map_run_eq_runOn (m : Machine V S) (is : List Instruction) (stack : List V) (s : S) :
    (m.run is (.running stack s)).map (fun config => (leftStack config, leftState config)) =
      if is.dropLast.any Instruction.isReturn then none else m.runOn is stack s := by
  induction is generalizing stack s with
  | nil => rfl
  | cons i rest ih =>
    rw [run, runOn]
    rcases m.step_cases i stack s with ⟨-, hstep⟩ | ⟨-, next, hstep, -, hreturn⟩
    · simp [hstep]
    · rw [hstep, Option.bind_some, Option.bind_some]
      cases next with
      | running stack' s' =>
        have hother : i.isReturn = false := by simpa using hreturn
        cases rest with
        | nil => rfl
        | cons j rest =>
          rw [ih, List.dropLast_cons_cons, List.any_cons, hother, Bool.false_or]
          rfl
      | returned value? s' =>
        cases rest with
        | nil => rfl
        | cons j rest =>
          have hi : i.isReturn = true := hreturn.mpr ⟨value?, s', rfl⟩
          rw [List.dropLast_cons_cons, List.any_cons, hi]
          rfl

end Machine

namespace Code

/-- All instructions find their operands if they are recorded one after the other. -/
def Supplied (code : Code) : List Instruction → Prop
  | [] => True
  | i :: rest => i.operands ≤ code.depth ∧ (code.record i).Supplied rest

/-- What a recorder says when it is given an instruction: a warning if operands are missing, unless
a reference is duplicated. -/
theorem warning?_eq (code : Code) (i : Instruction) :
    code.warning? i =
      if i ≠ .dupArrayRef ∧ code.depth < i.operands then some (.underflow i code.depth)
      else none := by
  rw [warning?, i.pops_eq]
  by_cases hdup : i = .dupArrayRef <;> simp [hdup]

/-- An instruction finds its operands if there is no warning, and something to duplicate. -/
theorem operands_le_depth_iff (code : Code) (i : Instruction) :
    i.operands ≤ code.depth ↔
      code.warning? i = none ∧ (i = .dupArrayRef → 0 < code.depth) := by
  rw [warning?_eq]
  by_cases hdup : i = .dupArrayRef
  · subst hdup
    simp [Instruction.operands, Nat.succ_le_iff]
  · simp [hdup]

/-- A condition on all places of an instruction, for the first place and for the others. -/
theorem forall_eq_append_cons_iff {i x : Instruction} {rest : List Instruction}
    {P : List Instruction → Prop} :
    (∀ before after, i :: rest = before ++ x :: after → P before) ↔
      (i = x → P []) ∧ ∀ before after, rest = before ++ x :: after → P (i :: before) := by
  constructor
  · intro h
    refine ⟨?_, ?_⟩
    · rintro rfl
      exact h [] rest rfl
    · rintro before after rfl
      exact h (i :: before) after rfl
  · rintro ⟨hfirst, hrest⟩ before after hsplit
    cases before with
    | nil =>
      obtain ⟨rfl, -⟩ := List.cons.inj hsplit
      exact hfirst rfl
    | cons j before =>
      obtain ⟨rfl, htail⟩ := List.cons.inj hsplit
      exact hrest before after htail

/-- Operands are there exactly if there is no warning and no reference is duplicated on an empty
stack. -/
theorem supplied_iff (code : Code) (is : List Instruction) :
    code.Supplied is ↔
      Code.sink.told code is = [] ∧
        ∀ before after, is = before ++ .dupArrayRef :: after →
          0 < (Code.sink.feed code before).depth := by
  induction is generalizing code with
  | nil => simp [Supplied, Sink.told]
  | cons i rest ih =>
    have htold : Code.sink.told code (i :: rest) =
        (code.warning? i).toList ++ Code.sink.told (code.record i) rest := rfl
    rw [Supplied, ih, operands_le_depth_iff, htold, List.append_eq_nil_iff,
      forall_eq_append_cons_iff, Option.toList_eq_nil_iff]
    exact and_and_and_comm

end Code

/-- A machine whose stack is as high as a recorder says gets through exactly if the operands are
there. -/
theorem Machine.runOn_isSome_iff {V S : Type u} (m : Machine V S) (is : List Instruction)
    (code : Code) {stack : List V} (hheight : code.depth = stack.length) (s : S) :
    (m.runOn is stack s).isSome = true ↔ code.Supplied is := by
  induction is generalizing code stack s with
  | nil => simp [runOn, Code.Supplied]
  | cons i rest ih =>
    rw [runOn, Code.Supplied, hheight]
    rcases m.step_cases i stack s with ⟨hmissing, hstep⟩ | ⟨hthere, next, hstep, hlength, -⟩
    · simp [hstep, Nat.not_le_of_lt hmissing]
    · have hnext : (code.record i).depth = (leftStack next).length := by
        rw [hlength, ← hheight]
        rfl
      rw [hstep, Option.bind_some, ih (code.record i) hnext]
      exact (and_iff_right hthere).symm

/-- Such a machine ends, with a return or at the end of the code, exactly if the operands are there
and nothing follows a return. -/
theorem Machine.run_isSome_iff {V S : Type u} (m : Machine V S) (is : List Instruction)
    (code : Code) {stack : List V} (hheight : code.depth = stack.length) (s : S) :
    (m.run is (.running stack s)).isSome = true ↔
      code.Supplied is ∧ ∀ i ∈ is.dropLast, i.isReturn = false := by
  rw [← Option.isSome_map, map_run_eq_runOn, ← m.runOn_isSome_iff is code hheight s]
  by_cases hreturn : is.dropLast.any Instruction.isReturn = true
  · obtain ⟨i, hi, hreturns⟩ := List.any_eq_true.mp hreturn
    rw [if_pos hreturn]
    exact iff_of_false Bool.false_ne_true fun h => absurd hreturns (by simp [h.2 i hi])
  · rw [if_neg hreturn]
    exact (and_iff_left (by simpa using hreturn)).symm

namespace Transcript

/-- Of the events that come of some acts, those of missing operands are what the sink says. -/
theorem filter_reports_eq_told (code : Code) {acts : List Act}
    (hown : ∀ event ∈ acts.filterMap event?, event.isOfLowering = true) :
    (reports Code.sink code acts).filter (·.message = "Operand stack underflow") =
      Code.sink.told code (acts.filterMap instruction?) := by
  induction acts generalizing code with
  | nil => rfl
  | cons act rest ih =>
    cases act with
    | report event =>
      have hown := List.forall_mem_cons.mp hown
      rw [reports, List.filter_cons_of_neg (by simpa using Event.message_ne_underflow hown.1),
        ih code hown.2]
      rfl
    | put i =>
      have hwarning : ((code.warning? i).toList).filter
          (fun event => event.message = "Operand stack underflow") =
            (code.warning? i).toList := by
        rw [Code.warning?_eq]
        split <;> simp [Event.message]
      change ((code.warning? i).toList ++ reports Code.sink (code.record i) rest).filter _ =
        (code.warning? i).toList ++ Code.sink.told (code.record i) (rest.filterMap instruction?)
      rw [List.filter_append, hwarning, ih (code.record i) hown]

end Transcript

/-- The events of missing operands that compiling reports are the warnings of a recorder that is
given the code. -/
theorem Expr.filter_events_compile (e : Expr) (limit : Nat) :
    (e.compile limit).events.toList.filter (·.message = "Operand stack underflow") =
      Code.warned (e.compile limit).sink.instructions.toList := by
  have hreports := Transcript.filter_reports_eq_told Code.empty (own_transcript e limit 0)
  rw [instructions_compile, Code.warned, Transcript.instructions, ← hreports, compile_eq]
  -- The two events that frame the others speak of something else.
  cases (e.transcript limit 0).error? <;> simp [Event.message]

/-- A recorder warns of missing operands for all instructions but the one that duplicates a
reference. So a method body that was compiled without such a warning runs from an empty stack
exactly if no reference is duplicated while the stack is empty. -/
theorem Code.underflow_reported_unless_duplicating {V S : Type u} (is : List Instruction)
    (i : Instruction) (e : Expr) (limit : Nat) (m : Machine V S) (s : S) :
    ((∃ event ∈ (Code.sink.accept (recorded is) i).2,
        event.message = "Operand stack underflow") ↔
      i ≠ .dupArrayRef ∧ (recorded is).depth < i.operands) ∧
    let emitted := (e.compile limit).sink.instructions.toList
    (∀ event ∈ (e.compile limit).events, event.message ≠ "Operand stack underflow") →
      ((m.runOn emitted [] s).isSome = true ↔
        ∀ before after, emitted = before ++ .dupArrayRef :: after →
          0 < (recorded before).depth) := by
  refine ⟨?_, fun hquiet => ?_⟩
  · change (∃ event ∈ ((recorded is).warning? i).toList, _) ↔ _
    rw [warning?_eq]
    split
    · simp_all [Event.message]
    · simp_all
  · have hwarned : warned (e.compile limit).sink.instructions.toList = [] := by
      rw [← Expr.filter_events_compile, List.filter_eq_nil_iff]
      simpa using hquiet
    rw [m.runOn_isSome_iff _ Code.empty rfl, supplied_iff]
    exact and_iff_right hwarned

/-- A body that makes an array and fills its first element by an assignment, which leaves no value.
-/
def Sample.hollow : Expr :=
  .block 5 .void [] []
    (.newArray 4 .int
      [.assign 2 (.parameter 0 ⟨1, "x", some .int⟩) (.constant 1 (.int 1)), .constant 3 (.int 5)])

/-- Duplicating a reference on an empty stack is not reported, neither by itself nor when the sample
is compiled, which then does not run. -/
theorem Code.duplicating_underflow_unreported :
    (recorded []).depth < Instruction.dupArrayRef.operands ∧
    (Code.sink.accept (recorded []) .dupArrayRef).2 = [] ∧
    (Sample.hollow.compile 4).error? = none ∧
    (∀ event ∈ (Sample.hollow.compile 4).events, event.message ≠ "Operand stack underflow") ∧
    Sample.logger.runOn (Sample.hollow.compile 4).sink.instructions.toList [] [] = none := by
  refine ⟨by decide, rfl, by decide, ?_, rfl⟩
  decide

end MethodBody
