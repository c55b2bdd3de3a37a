import MethodBody.Proofs.Transcript

/-!
# The parts of lowering a node

Lowering a node is done in parts: the node is come to, its operands are lowered, instructions are
handed over. `Expr.parts` lists them in order, with what is lowered below the node left as it is.
The transcript of a node is that of its parts in turn, and its occurrences are those of its parts.
So a statement about transcripts is shown of single parts and of parts in turn, and from there on
`Expr.transcript_induction` makes it one about all expressions.
-/

namespace MethodBody

/-- The variables that a node declares. Only blocks declare any. -/
def Expr.declared : Expr → List Variable
  | .block _ _ locals _ _ => locals
  | _ => []

/-- Whether lowering comes to an occurrence. A variable that is assigned to is passed over. -/
def Occurrence.isVisited (o : Occurrence) : Bool := !(o.isTarget && o.node.kind == .parameter)

open Transcript

/-- A part of lowering a node. -/
inductive Part where
  /-- Lowering comes to an occurrence. -/
  | arrive (o : Occurrence) (visited : o.isVisited = true)
  /-- A variable that is assigned to is passed over. -/
  | pass (id : NodeId) (var : Variable) (depth : Nat)
  /-- An instruction is handed over. -/
  | give (instruction : Instruction)
  /-- An element is refused for where it stands, and its operands are not come to. -/
  | misplaced (array index : Expr) (depth : Nat)
  /-- An assignment is refused for its left side, and its operands are not come to. -/
  | unassignable (left right : Expr) (depth : Nat)
  /-- An operand is lowered. -/
  | below (e : Expr) (depth : Nat)

namespace Part

/-- What is done in a part. -/
@[simp] def transcript (limit : Nat) : Part → Transcript
  | arrive o _ => enter limit o.node.kind o.depth ++ reportLocals o.node.declared
  | pass .. => .done
  | give instruction => put instruction
  | misplaced .. => stop (.unsupportedNode .arrayIndex Lower.elementContext)
  | unassignable left _ _ =>
    report (.rejectedTarget left.kind) ++ stop (.invalidAssignmentTarget left.kind)
  | below e depth => e.transcript limit depth

/-- The occurrences that a part is about, also those that it does not come to. -/
@[simp] def occurrences : Part → List Occurrence
  | arrive o _ => [o]
  | pass id var depth => [⟨.parameter id var, depth, true⟩]
  | give _ => []
  | misplaced array index depth =>
    array.occurrencesAt false depth ++ index.occurrencesAt false depth
  | unassignable left right depth =>
    left.occurrencesAt true depth ++ right.occurrencesAt false depth
  | below e depth => e.occurrencesAt false depth

/-- What is done in some parts, one after the other. -/
@[simp] def inTurn (limit : Nat) : List Part → Transcript
  | [] => .done
  | part :: rest => part.transcript limit ++ inTurn limit rest

/-- Parts in turn are done in turn. -/
@[simp] theorem inTurn_append (limit : Nat) (xs ys : List Part) :
    inTurn limit (xs ++ ys) = inTurn limit xs ++ inTurn limit ys := by
  induction xs with
  | nil => rfl
  | cons part rest ih => rw [List.cons_append, inTurn, inTurn, ih, append_assoc]

/-- What holds of single parts and is kept by doing things in turn holds of parts in turn. -/
theorem inTurn_induction {Q : List Occurrence → (Nat → Transcript) → Prop}
    (done : Q [] fun _ => .done)
    (append : ∀ {os os' t u}, Q os t → Q os' u → Q (os ++ os') fun limit => t limit ++ u limit)
    {parts : List Part}
    (h : ∀ part ∈ parts, Q part.occurrences fun limit => part.transcript limit) :
    Q (parts.flatMap occurrences) fun limit => inTurn limit parts := by
  induction parts with
  | nil => exact done
  | cons part rest ih =>
    rw [List.flatMap_cons]
    exact append (h part (by simp)) (ih fun p hp => h p (by simp [hp]))

end Part

namespace Expr

/-- The parts of lowering several operands that lie at one depth. -/
def operandParts (depth : Nat) (es : List Expr) : List Part := es.map (Part.below · depth)

/-- The parts of storing expressions into an array, from the given position on. -/
def elementParts (depth : Nat) : Nat → List Expr → List Part
  | _, [] => []
  | position, e :: rest =>
    [.give .dupArrayRef, .give (.pushInt (Int32.ofNat position)), .below e depth,
      .give .storeArrayElement] ++ elementParts depth (position + 1) rest

/-- The parts of lowering a node that lies at the given depth, once it is come to. -/
def laterParts (depth : Nat) : Expr → List Part
  | .constant _ value => [.give (.pushLiteral value)]
  | .parameter _ var => [.give (.loadLocal var.slot)]
  | .member _ target field => [.below target (depth + 1), .give (.getField field)]
  | .arrayIndex _ array index => [.misplaced array index (depth + 1)]
  | .assign _ (.member id target field) right =>
    [.arrive ⟨.member id target field, depth + 1, true⟩ rfl, .below target (depth + 2),
      .below right (depth + 1), .give (.putField field)]
  | .assign _ (.arrayIndex id array index) right =>
    [.arrive ⟨.arrayIndex id array index, depth + 1, true⟩ rfl, .below array (depth + 2),
      .below index (depth + 2), .below right (depth + 1), .give .storeArrayElement]
  | .assign _ (.parameter id var) right =>
    [.pass id var (depth + 1), .below right (depth + 1), .give (.storeLocal var.slot)]
  | .assign _ left right => [.unassignable left right (depth + 1)]
  | .call _ none sig args => operandParts (depth + 1) args ++ [.give (.invokeStatic sig)]
  | .call _ (some receiver) sig args =>
    .below receiver (depth + 1) ::
      (operandParts (depth + 1) args ++ [.give (.invokeVirtual sig)])
  | .newArray _ element elements =>
    .give (.pushInt (Int32.ofNat elements.length)) :: .give (.newArray element) ::
      elementParts (depth + 1) 0 elements
  | .block _ ty _ statements result =>
    operandParts (depth + 1) statements ++
      [.below result (depth + 1), .give (if ty.isVoid then .returnVoid else .returnValue)]

/-- The parts of lowering a node that lies at the given depth. -/
def parts (e : Expr) (depth : Nat) : List Part :=
  .arrive ⟨e, depth, false⟩ rfl :: e.laterParts depth

/-- The parts of an assignment whose left side is not assignable. -/
theorem laterParts_assign_of_not_assignable {left : Expr} (hleft : left.isAssignable = false)
    (id : NodeId) (right : Expr) (depth : Nat) :
    (Expr.assign id left right).laterParts depth = [.unassignable left right (depth + 1)] := by
  cases left with
  | member | arrayIndex | parameter => simp [isAssignable, kind] at hleft
  | assign | constant | call | block | newArray => rfl

/-- Operands are lowered in turn. -/
theorem transcriptAll_eq_inTurn (limit depth : Nat) (es : List Expr) :
    transcriptAll limit es depth = Part.inTurn limit (operandParts depth es) := by
  induction es with
  | nil => rfl
  | cons e rest ih =>
    rw [transcriptAll, ih]
    rfl

/-- Elements are stored in turn. -/
theorem transcriptElements_eq_inTurn (limit depth position : Nat) (es : List Expr) :
    transcriptElements limit es position depth =
      Part.inTurn limit (elementParts depth position es) := by
  induction es generalizing position with
  | nil => rfl
  | cons e rest ih =>
    simp [transcriptElements, elementParts, ih, append_assoc]

/-- The parts of a node are done in turn. -/
theorem transcript_eq_inTurn (e : Expr) (limit depth : Nat) :
    e.transcript limit depth = Part.inTurn limit (e.parts depth) := by
  cases e using shape_induction with
  | assignOther id left right hleft =>
    simp [transcript_assign_of_not_assignable hleft, parts,
      laterParts_assign_of_not_assignable hleft, kind, declared, append_assoc]
  | constant | parameter | member | arrayIndex | assignMember | assignElement | assignLocal
  | callStatic | callVirtual | newArray | block =>
    simp [transcript, parts, laterParts, kind, declared, append_assoc, transcriptAll_eq_inTurn,
      transcriptElements_eq_inTurn]

/-- The occurrences in operands are those of their parts. -/
theorem occurrencesAll_eq_flatMap_operandParts (depth : Nat) (es : List Expr) :
    occurrencesAll depth es = (operandParts depth es).flatMap Part.occurrences := by
  rw [occurrencesAll_eq, operandParts, List.flatMap_map]
  rfl

/-- The occurrences in elements are those of their parts. -/
theorem occurrencesAll_eq_flatMap_elementParts (depth position : Nat) (es : List Expr) :
    occurrencesAll depth es = (elementParts depth position es).flatMap Part.occurrences := by
  induction es generalizing position with
  | nil => rfl
  | cons e rest ih => simp [occurrencesAll, elementParts, ih (position + 1)]

/-- The occurrences in an expression are those of its parts. -/
theorem occurrencesAt_eq_flatMap_parts (e : Expr) (depth : Nat) :
    e.occurrencesAt false depth = (e.parts depth).flatMap Part.occurrences := by
  cases e using shape_induction with
  | assignOther id left right hleft =>
    simp [occurrencesAt, parts, laterParts_assign_of_not_assignable hleft]
  | newArray id element elements =>
    simp [occurrencesAt, parts, laterParts, ← occurrencesAll_eq_flatMap_elementParts]
  | constant | parameter | member | arrayIndex | assignMember | assignElement | assignLocal
  | callStatic | callVirtual | block =>
    simp [occurrencesAt, parts, laterParts, ← occurrencesAll_eq_flatMap_operandParts]

/-- The operands themselves are what is lowered as parts of them. -/
@[simp] theorem below_mem_operandParts {x : Expr} {es : List Expr} {depth depth' : Nat} :
    .below x depth' ∈ operandParts depth es ↔ x ∈ es ∧ depth' = depth := by
  simp [operandParts, eq_comm]

/-- The elements themselves are what is lowered while they are stored. -/
@[simp] theorem below_mem_elementParts {x : Expr} {es : List Expr} {depth depth' position : Nat} :
    .below x depth' ∈ elementParts depth position es ↔ x ∈ es ∧ depth' = depth := by
  induction es generalizing position with
  | nil => simp [elementParts]
  | cons e rest ih => simp [elementParts, ih, or_and_right]

/-- What is lowered as a part of a node is a child of the node or of its target. -/
theorem mem_children_of_below {e x : Expr} {depth depth' : Nat}
    (h : .below x depth' ∈ e.parts depth) :
    x ∈ e.children ∨ ∃ c ∈ e.children, x ∈ c.children := by
  cases e using shape_induction with
  | assignOther id left right hleft =>
    simp [parts, laterParts_assign_of_not_assignable hleft] at h
  | constant | parameter | arrayIndex => simp [parts, laterParts] at h
  | assignMember id leftId target field right =>
    -- A target is opened by the assignment itself, so its operands lie two levels below.
    obtain ⟨rfl, -⟩ | ⟨rfl, -⟩ : x = target ∧ _ ∨ x = right ∧ _ := by
      simpa [parts, laterParts] using h
    · exact .inr ⟨_, List.mem_cons_self, by simp [children]⟩
    · exact .inl (by simp [children])
  | assignElement id leftId array index right =>
    obtain ⟨rfl, -⟩ | ⟨rfl, -⟩ | ⟨rfl, -⟩ : x = array ∧ _ ∨ x = index ∧ _ ∨ x = right ∧ _ := by
      simpa [parts, laterParts] using h
    · exact .inr ⟨_, List.mem_cons_self, by simp [children]⟩
    · exact .inr ⟨_, List.mem_cons_self, by simp [children]⟩
    · exact .inl (by simp [children])
  | member | assignLocal | callStatic | callVirtual | newArray | block =>
    left
    simp only [parts, laterParts, List.mem_cons, List.mem_append, List.not_mem_nil,
      below_mem_operandParts, below_mem_elementParts, reduceCtorEq, Part.below.injEq] at h
    grind [children]

/-- Induction along what lowering goes through. -/
theorem parts_induction {P : Expr → Nat → Prop}
    (step : ∀ e depth, (∀ x depth', .below x depth' ∈ e.parts depth → P x depth') → P e depth)
    (e : Expr) (depth : Nat) : P e depth :=
  step e depth fun x depth' hx =>
    have : sizeOf x < sizeOf e := by
      rcases mem_children_of_below hx with hc | ⟨c, hc, hx⟩
      · exact sizeOf_lt_of_mem_children hc
      · exact Nat.lt_trans (sizeOf_lt_of_mem_children hx) (sizeOf_lt_of_mem_children hc)
    parts_induction step x depth'
termination_by sizeOf e

/-- Induction for statements that relate the occurrences in an expression to its transcripts, under
whatever limit. They are shown of the parts that lower nothing else, and kept by doing things in
turn. -/
theorem transcript_induction {Q : List Occurrence → (Nat → Transcript) → Prop}
    (done : Q [] fun _ => .done)
    (append : ∀ {os os' t u}, Q os t → Q os' u → Q (os ++ os') fun limit => t limit ++ u limit)
    (arrive : ∀ o : Occurrence, o.isVisited = true →
      Q [o] fun limit => enter limit o.node.kind o.depth ++ reportLocals o.node.declared)
    (pass : ∀ id var depth, Q [⟨.parameter id var, depth, true⟩] fun _ => .done)
    (give : ∀ instruction, Q [] fun _ => put instruction)
    (misplaced : ∀ os, Q os fun _ => stop (.unsupportedNode .arrayIndex Lower.elementContext))
    (unassignable : ∀ os kind, Q os fun _ =>
      report (.rejectedTarget kind) ++ stop (.invalidAssignmentTarget kind))
    (e : Expr) (depth : Nat) :
    Q (e.occurrencesAt false depth) fun limit => e.transcript limit depth := by
  induction e, depth using parts_induction with
  | step e depth ih =>
    simp only [occurrencesAt_eq_flatMap_parts, transcript_eq_inTurn]
    refine Part.inTurn_induction done append fun part hpart => ?_
    cases part with
    | arrive o visited => exact arrive o visited
    | pass id var depth => exact pass id var depth
    | give instruction => exact give instruction
    | misplaced array index depth => exact misplaced _
    | unassignable left right depth => exact unassignable _ _
    | below x depth' => exact ih x depth' hpart

end Expr

/-- Lowering reports nothing but that it comes to a node, what it refuses, and the variables of
blocks. -/
theorem Expr.own_transcript (e : Expr) (limit depth : Nat) : (e.transcript limit depth).Own := by
  refine transcript_induction (Q := fun _ t => (t limit).Own) (own_of_acts_eq_nil rfl) .append
    (fun o _ => (own_enter _ _ _).append (own_reportLocals _)) ?_ own_put ?_ ?_ e depth
  · intro id var depth
    exact own_of_acts_eq_nil rfl
  · intro os
    exact own_of_acts_eq_nil rfl
  · intro os kind
    exact (own_report rfl).append (own_of_acts_eq_nil rfl)

end MethodBody
