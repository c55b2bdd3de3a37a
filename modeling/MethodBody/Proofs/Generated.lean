import MethodBody.Proofs.Playback
import MethodBody.Proofs.Reachable

/-!
# The code of an expression

If lowering goes through, what it hands over depends on the expression alone: `Expr.code`. That it
goes through at some depth is `Expr.Lowers`, which is taken apart here for each form of expression.
-/

namespace MethodBody.Expr

mutual

/-- The code of an expression. What is refused has none. -/
def code : Expr → List Instruction
  | .constant _ value => [.pushLiteral value]
  | .parameter _ var => [.loadLocal var.slot]
  | .member _ target field => target.code ++ [.getField field]
  | .arrayIndex _ _ _ => []
  | .assign _ (.member _ target field) right => target.code ++ right.code ++ [.putField field]
  | .assign _ (.arrayIndex _ array index) right =>
    array.code ++ index.code ++ right.code ++ [.storeArrayElement]
  | .assign _ (.parameter _ var) right => right.code ++ [.storeLocal var.slot]
  | .assign _ _ _ => []
  | .call _ none sig args => codeAll args ++ [.invokeStatic sig]
  | .call _ (some receiver) sig args => receiver.code ++ codeAll args ++ [.invokeVirtual sig]
  | .newArray _ element elements =>
    .pushInt (Int32.ofNat elements.length) :: .newArray element :: codeElements 0 elements
  | .block _ ty _ statements result =>
    codeAll statements ++ result.code ++ [if ty.isVoid then .returnVoid else .returnValue]

/-- The code of several expressions in order. -/
def codeAll : List Expr → List Instruction
  | [] => []
  | e :: rest => e.code ++ codeAll rest

/-- The code that stores expressions into an array, from the given position on. -/
def codeElements (position : Nat) : List Expr → List Instruction
  | [] => []
  | e :: rest =>
    .dupArrayRef :: .pushInt (Int32.ofNat position) :: e.code
      ++ .storeArrayElement :: codeElements (position + 1) rest

end

/-- Lowering an expression at the given depth goes through. -/
def Lowers (limit depth : Nat) (e : Expr) : Prop := (e.transcript limit depth).error? = none

section Lowers

variable {limit depth : Nat} {id leftId : NodeId}

/-- A constant goes through if it lies within the limit. -/
@[simp] theorem lowers_constant {value : Literal} :
    (constant id value).Lowers limit depth ↔ depth ≤ limit := by
  simp [Lowers, transcript]

/-- A variable that is read goes through if it lies within the limit. -/
@[simp] theorem lowers_parameter {var : Variable} :
    (parameter id var).Lowers limit depth ↔ depth ≤ limit := by
  simp [Lowers, transcript]

/-- A field access within the limit goes through if its target does. -/
@[simp] theorem lowers_member {target : Expr} {field : Field} :
    (member id target field).Lowers limit depth ↔
      depth ≤ limit ∧ target.Lowers limit (depth + 1) := by
  simp [Lowers, transcript]

/-- An element by itself never goes through. -/
@[simp] theorem not_lowers_arrayIndex {array index : Expr} :
    ¬ (arrayIndex id array index).Lowers limit depth := by
  simp [Lowers, transcript]

/-- An assignment to a field goes through if the object and the value do and the field access lies
within the limit. -/
@[simp] theorem lowers_assign_member {target right : Expr} {field : Field} :
    (assign id (member leftId target field) right).Lowers limit depth ↔
      depth + 1 ≤ limit ∧ target.Lowers limit (depth + 2) ∧ right.Lowers limit (depth + 1) := by
  have hdepth : depth ≤ limit ∧ depth + 1 ≤ limit ↔ depth + 1 ≤ limit := by omega
  simp only [Lowers, transcript, Transcript.error?_append, Option.or_eq_none_iff,
    Transcript.error?_enter_eq_none_iff, Transcript.error?_put, and_true, hdepth]
  simp only [and_assoc]

/-- An assignment to an element goes through if the array, the index and the value do and the
element lies within the limit. -/
@[simp] theorem lowers_assign_arrayIndex {array index right : Expr} :
    (assign id (arrayIndex leftId array index) right).Lowers limit depth ↔
      depth + 1 ≤ limit ∧ array.Lowers limit (depth + 2) ∧ index.Lowers limit (depth + 2) ∧
        right.Lowers limit (depth + 1) := by
  have hdepth : depth ≤ limit ∧ depth + 1 ≤ limit ↔ depth + 1 ≤ limit := by omega
  simp only [Lowers, transcript, Transcript.error?_append, Option.or_eq_none_iff,
    Transcript.error?_enter_eq_none_iff, Transcript.error?_put, and_true, hdepth]
  simp only [and_assoc]

/-- An assignment to a variable within the limit goes through if the value does. -/
@[simp] theorem lowers_assign_parameter {var : Variable} {right : Expr} :
    (assign id (parameter leftId var) right).Lowers limit depth ↔
      depth ≤ limit ∧ right.Lowers limit (depth + 1) := by
  simp [Lowers, transcript]

/-- An assignment to anything else never goes through. -/
theorem not_lowers_assign {left right : Expr} (hleft : left.isAssignable = false) :
    ¬ (assign id left right).Lowers limit depth := by
  simp [Lowers, transcript_assign_of_not_assignable hleft]

/-- Operands go through if each of them does. -/
theorem error?_transcriptAll_eq_none_iff {es : List Expr} :
    (transcriptAll limit es depth).error? = none ↔ ∀ e ∈ es, e.Lowers limit depth := by
  induction es with
  | nil => simp [transcriptAll]
  | cons e rest ih => simp [transcriptAll, ih, Lowers]

/-- Storing elements goes through if each of them does. -/
theorem error?_transcriptElements_eq_none_iff {es : List Expr} {position : Nat} :
    (transcriptElements limit es position depth).error? = none ↔
      ∀ e ∈ es, e.Lowers limit depth := by
  induction es generalizing position with
  | nil => simp [transcriptElements]
  | cons e rest ih => simp [transcriptElements, ih, Lowers]

/-- A call within the limit and without a receiver goes through if its arguments do. -/
@[simp] theorem lowers_call_none {sig : Signature} {args : List Expr} :
    (call id none sig args).Lowers limit depth ↔
      depth ≤ limit ∧ ∀ a ∈ args, a.Lowers limit (depth + 1) := by
  rw [Lowers, transcript]
  simp [error?_transcriptAll_eq_none_iff]

/-- A call within the limit goes through if its receiver and its arguments do. -/
@[simp] theorem lowers_call_some {receiver : Expr} {sig : Signature} {args : List Expr} :
    (call id (some receiver) sig args).Lowers limit depth ↔
      depth ≤ limit ∧ receiver.Lowers limit (depth + 1) ∧
        ∀ a ∈ args, a.Lowers limit (depth + 1) := by
  rw [Lowers, transcript]
  simp [error?_transcriptAll_eq_none_iff, Lowers, and_assoc]

/-- An array literal within the limit goes through if its elements do. -/
@[simp] theorem lowers_newArray {element : Ty} {elements : List Expr} :
    (newArray id element elements).Lowers limit depth ↔
      depth ≤ limit ∧ ∀ x ∈ elements, x.Lowers limit (depth + 1) := by
  rw [Lowers, transcript]
  simp [error?_transcriptElements_eq_none_iff]

/-- A block within the limit goes through if its statements and its result do. -/
@[simp] theorem lowers_block {ty : Ty} {locals : List Variable} {statements : List Expr}
    {result : Expr} :
    (block id ty locals statements result).Lowers limit depth ↔
      depth ≤ limit ∧ (∀ x ∈ statements, x.Lowers limit (depth + 1)) ∧
        result.Lowers limit (depth + 1) := by
  rw [Lowers, transcript]
  simp [error?_transcriptAll_eq_none_iff, Lowers, and_assoc]

/-- Lowering that goes through is not stopped. -/
theorem Lowers.not_stopped {e : Expr} (h : e.Lowers limit depth) :
    (e.transcript limit depth).error? = none := h

/-- Several expressions hand over their code in order if each of them does. -/
theorem instructions_transcriptAll {es : List Expr} (hlowers : ∀ e ∈ es, e.Lowers limit depth)
    (hes : ∀ e ∈ es, (e.transcript limit depth).instructions = e.code) :
    (transcriptAll limit es depth).instructions = codeAll es := by
  induction es with
  | nil => rfl
  | cons e rest ih =>
    have hrest := ih (fun x hx => hlowers x (by simp [hx])) fun x hx => hes x (by simp [hx])
    rw [transcriptAll, Transcript.instructions_append (hlowers e (by simp)), hes e (by simp), hrest,
      codeAll]

/-- The elements of an array literal hand over their code in order if each of them does. -/
theorem instructions_transcriptElements {es : List Expr}
    (hlowers : ∀ e ∈ es, e.Lowers limit depth)
    (hes : ∀ e ∈ es, (e.transcript limit depth).instructions = e.code) (position : Nat) :
    (transcriptElements limit es position depth).instructions = codeElements position es := by
  induction es generalizing position with
  | nil => rfl
  | cons e rest ih =>
    have hrest := ih (fun x hx => hlowers x (by simp [hx])) (fun x hx => hes x (by simp [hx]))
      (position + 1)
    have he := (hlowers e (by simp)).not_stopped
    simp [transcriptElements, codeElements, Transcript.append_assoc,
      Transcript.instructions_append he, hes e (by simp), hrest]

/-- Lowering that goes through hands over the code of the expression. -/
theorem Lowers.instructions_eq {e : Expr} (h : e.Lowers limit depth) :
    (e.transcript limit depth).instructions = e.code := by
  induction e using shape_induction generalizing depth with
  | arrayIndex id array index => exact absurd h not_lowers_arrayIndex
  | assignOther id left right hleft => exact absurd h (not_lowers_assign hleft)
  | constant id value =>
    have hdepth := lowers_constant.mp h
    simp [transcript, code, Transcript.instructions_append, hdepth]
  | parameter id var =>
    have hdepth := lowers_parameter.mp h
    simp [transcript, code, Transcript.instructions_append, hdepth]
  | member id target field ih =>
    obtain ⟨hdepth, htarget⟩ := lowers_member.mp h
    simp [transcript, code, Transcript.instructions_append, hdepth, htarget.not_stopped, ih htarget]
  | assignMember id leftId target field right iht ihr =>
    obtain ⟨hdepth, htarget, hright⟩ := lowers_assign_member.mp h
    have hdepth' : depth ≤ limit := by omega
    simp [transcript, code, Transcript.instructions_append, hdepth', Nat.not_lt.mpr hdepth,
      htarget.not_stopped, hright.not_stopped, iht htarget, ihr hright]
  | assignElement id leftId array index right iha ihi ihr =>
    obtain ⟨hdepth, harray, hindex, hright⟩ := lowers_assign_arrayIndex.mp h
    have hdepth' : depth ≤ limit := by omega
    simp [transcript, code, Transcript.instructions_append, hdepth', Nat.not_lt.mpr hdepth,
      harray.not_stopped, hindex.not_stopped, hright.not_stopped, iha harray, ihi hindex,
      ihr hright]
  | assignLocal id leftId var right ih =>
    obtain ⟨hdepth, hright⟩ := lowers_assign_parameter.mp h
    simp [transcript, code, Transcript.instructions_append, hdepth, hright.not_stopped, ih hright]
  | callStatic id sig args ih =>
    obtain ⟨hdepth, hargs⟩ := lowers_call_none.mp h
    have hstop := error?_transcriptAll_eq_none_iff.mpr hargs
    have hall := instructions_transcriptAll hargs fun a ha => ih a ha (hargs a ha)
    simp [transcript, code, Transcript.instructions_append, hdepth, hstop, hall]
  | callVirtual id receiver sig args ihr ih =>
    obtain ⟨hdepth, hreceiver, hargs⟩ := lowers_call_some.mp h
    have hstop := error?_transcriptAll_eq_none_iff.mpr hargs
    have hall := instructions_transcriptAll hargs fun a ha => ih a ha (hargs a ha)
    simp [transcript, code, Transcript.instructions_append, hdepth, hreceiver.not_stopped, hstop,
      hall, ihr hreceiver]
  | newArray id element elements ih =>
    obtain ⟨hdepth, helements⟩ := lowers_newArray.mp h
    have hall := instructions_transcriptElements helements (fun x hx => ih x hx (helements x hx)) 0
    simp [transcript, code, Transcript.instructions_append, hdepth, hall]
  | block id ty locals statements result ih ihr =>
    obtain ⟨hdepth, hstatements, hresult⟩ := lowers_block.mp h
    have hstop := error?_transcriptAll_eq_none_iff.mpr hstatements
    have hall := instructions_transcriptAll hstatements fun x hx => ih x hx (hstatements x hx)
    simp [transcript, code, Transcript.instructions_append, hdepth, hresult.not_stopped, hstop,
      hall, ihr hresult]

/-- A method body that compiles gives its code. -/
theorem instructions_compile_eq_code {e : Expr} (hok : (e.compile limit).error? = none) :
    (e.compile limit).sink.instructions.toList = e.code := by
  rw [error?_compile] at hok
  rw [instructions_compile, Lowers.instructions_eq hok]

end Lowers

end MethodBody.Expr
