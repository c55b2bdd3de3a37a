import MethodBody.Proofs.Acceptance
import MethodBody.Proofs.Parts
import MethodBody.Proofs.Reachable
import MethodBody.Proofs.Stream

/-!
# Where lowering stops

Lowering that comes to a node it has to refuse stops there: it has handed over what stands before
the node and nothing of the node or of what comes after it. To say so, the node is replaced by
something else and the two lowerings are compared. Occurrences are told apart by their number in
preorder, so that of a shared node only one occurrence is replaced.

The comparison goes through the tree in stretches of preorder. `Stretch` says of one what lowering
does in it for every replacement, and stretches are put one after the other by `Stretch.append`. The
parts of lowering a node are such stretches, so a node is one too.
-/

namespace MethodBody

namespace Expr

/-- The number of occurrences in an expression. -/
def size (e : Expr) : Nat := e.occurrences.length

mutual

/-- Puts `x` in the place of one occurrence. The occurrences in the expression are numbered in
preorder from `start` on, and `place` is the number of the one that is replaced. -/
def replaceFrom (e : Expr) (place start : Nat) (x : Expr) : Expr :=
  if start = place then x
  else
    match e with
    | .constant .. => e
    | .parameter .. => e
    | .member id target field => .member id (target.replaceFrom place (start + 1) x) field
    | .assign id left right =>
      .assign id (left.replaceFrom place (start + 1) x)
        (right.replaceFrom place (start + 1 + left.size) x)
    | .call id none sig args => .call id none sig (replaceAll args place (start + 1) x)
    | .call id (some receiver) sig args =>
      .call id (some (receiver.replaceFrom place (start + 1) x)) sig
        (replaceAll args place (start + 1 + receiver.size) x)
    | .block id ty locals statements result =>
      .block id ty locals (replaceAll statements place (start + 1) x)
        (result.replaceFrom place (start + 1 + (occurrencesAll 0 statements).length) x)
    | .arrayIndex id array index =>
      .arrayIndex id (array.replaceFrom place (start + 1) x)
        (index.replaceFrom place (start + 1 + array.size) x)
    | .newArray id element elements =>
      .newArray id element (replaceAll elements place (start + 1) x)

/-- Puts `x` in the place of one occurrence in several expressions, numbered from `start` on. -/
def replaceAll (es : List Expr) (place start : Nat) (x : Expr) : List Expr :=
  match es with
  | [] => []
  | e :: rest => e.replaceFrom place start x :: replaceAll rest place (start + e.size) x

end

/-- The expression with `x` in the place of the occurrence that has the given number in preorder. -/
def replaceAt (e : Expr) (place : Nat) (x : Expr) : Expr := e.replaceFrom place 0 x

-- The constant of the sample is shared, and its second occurrence is replaced alone.
example (x : Expr) : (Sample.store "xs").replaceAt 7 x =
    .assign 6 (Sample.element "xs") (.call 5 (some Sample.self) Sample.total
      [.newArray 4 .int [x]]) := rfl

/-- The first occurrence is the expression itself. -/
@[simp] theorem replaceFrom_start (e : Expr) (start : Nat) (x : Expr) :
    e.replaceFrom start start x = x := by
  cases e with
  | call id receiver sig args => cases receiver <;> simp [replaceFrom]
  | constant | parameter | member | assign | block | arrayIndex | newArray => simp [replaceFrom]

/-- A node that is not replaced itself keeps its kind. -/
theorem kind_replaceFrom {e : Expr} {place start : Nat} (h : start ≠ place) (x : Expr) :
    (e.replaceFrom place start x).kind = e.kind := by
  cases e with
  | call id receiver sig args => cases receiver <;> simp [replaceFrom, h, kind]
  | constant | parameter | member | assign | block | arrayIndex | newArray =>
    simp [replaceFrom, h, kind]

/-- Replacing keeps the number of expressions. -/
theorem length_replaceAll (es : List Expr) (place start : Nat) (x : Expr) :
    (replaceAll es place start x).length = es.length := by
  induction es generalizing start with
  | nil => rfl
  | cons e rest ih => rw [replaceAll, List.length_cons, List.length_cons, ih]

/-- How many occurrences an expression has does not depend on where it stands. -/
@[simp] theorem length_occurrencesAt (e : Expr) (target : Bool) (depth : Nat) :
    (e.occurrencesAt target depth).length = e.size := by
  have hnodes := congrArg List.length (e.map_node_occurrencesAt target false depth 0)
  simpa [size, occurrences] using hnodes

/-- An expression occurs in itself. -/
theorem size_pos (e : Expr) : 0 < e.size := by
  obtain ⟨below, hos⟩ := e.occurrencesAt_eq_cons false 0
  rw [size, occurrences, hos]
  exact Nat.zero_lt_succ _

/-- The occurrences in a field access are the access itself and those in its target. -/
theorem size_member (id : NodeId) (target : Expr) (field : Field) :
    (Expr.member id target field).size = target.size + 1 := by
  rw [← length_occurrencesAt _ false 0, occurrencesAt]
  simp

/-- The occurrences in an assignment are the assignment itself and those in its sides. -/
theorem size_assign (id : NodeId) (left right : Expr) :
    (Expr.assign id left right).size = left.size + right.size + 1 := by
  rw [← length_occurrencesAt _ false 0, occurrencesAt]
  simp

/-- The occurrences in an element are the element itself and those in the array and in the index. -/
theorem size_arrayIndex (id : NodeId) (array index : Expr) :
    (Expr.arrayIndex id array index).size = array.size + index.size + 1 := by
  rw [← length_occurrencesAt _ false 0, occurrencesAt]
  simp

end Expr

open Transcript

/-- The occurrences `os` follow one another in preorder, numbered from `start` on. Lowering does
`base` in this stretch, and `t place x` if `x` was put in the place of the occurrence with the
number `place`. -/
structure Stretch (limit start : Nat) (os : List Occurrence) (base : Transcript)
    (t : Nat → Expr → Transcript) : Prop where
  /-- A replacement elsewhere is not noticed. -/
  apart : ∀ place x, (place < start ∨ start + os.length ≤ place) → t place x = base
  /-- Lowering goes through if there is nothing to refuse. -/
  passes : (∀ o ∈ os, o.offence? limit = none) → base.error? = none
  /-- Lowering comes to a misused occurrence if there is nothing to refuse before it, and whatever
  stands there is lowered between the same two parts. -/
  comes : ∀ before o after, os = before ++ o :: after → (∀ b ∈ before, b.offence? limit = none) →
    o.misuse? ≠ none → ∃ first last, first.error? = none ∧
      base = first ++ o.node.transcript limit o.depth ++ last ∧
      ∀ x, t (start + before.length) x = first ++ x.transcript limit o.depth ++ last

namespace Stretch

variable {limit start : Nat} {os os₁ os₂ : List Occurrence} {base base₁ base₂ : Transcript}
  {t t' t₁ t₂ : Nat → Expr → Transcript}

/-- A step of lowering that belongs to no occurrence and goes through. -/
theorem step (ht : base.error? = none) : Stretch limit start [] base fun _ _ => base where
  apart _ _ _ := rfl
  passes _ := ht
  comes before o after hos := by simp at hos

/-- Stretches that follow one another are one stretch. -/
theorem append (h₁ : Stretch limit start os₁ base₁ t₁)
    (h₂ : Stretch limit (start + os₁.length) os₂ base₂ t₂) :
    Stretch limit start (os₁ ++ os₂) (base₁ ++ base₂) fun place x => t₁ place x ++ t₂ place x where
  apart place x hplace := by
    rw [List.length_append] at hplace
    have happart₁ := h₁.apart place x (by omega)
    have happart₂ := h₂.apart place x (by omega)
    rw [happart₁, happart₂]
  passes hos := by
    have hpasses₁ := h₁.passes fun o ho => hos o (by simp [ho])
    have hpasses₂ := h₂.passes fun o ho => hos o (by simp [ho])
    simp [hpasses₁, hpasses₂]
  comes before o after hsplit hbefore hmisuse := by
    rcases split_append hsplit with ⟨rest, hin, -⟩ | ⟨middle, hleft, hin⟩
    · obtain ⟨first, last, hfirst, hbase, hcomes⟩ := h₁.comes before o rest hin hbefore hmisuse
      have hplace : before.length < os₁.length := by simp [hin]
      refine ⟨first, last ++ base₂, hfirst, ?_, fun x => ?_⟩
      · rw [hbase]
        simp only [append_assoc]
      · rw [hcomes x, h₂.apart _ x (by omega)]
        simp only [append_assoc]
    · -- An occurrence in the second stretch is come to once the first one is passed.
      subst hleft
      obtain ⟨first, last, hfirst, hbase, hcomes⟩ := h₂.comes middle o after hin
        (fun b hb => hbefore b (by simp [hb])) hmisuse
      have hpasses := h₁.passes fun b hb => hbefore b (by simp [hb])
      refine ⟨base₁ ++ first, last, by simp [hpasses, hfirst], ?_, fun x => ?_⟩
      · rw [hbase]
        simp only [append_assoc]
      · have happart := h₁.apart (start + (os₁ ++ middle).length) x (by simp)
        have hplace : start + (os₁ ++ middle).length = start + os₁.length + middle.length := by
          rw [List.length_append, Nat.add_assoc]
        rw [happart, hplace, hcomes x]
        simp only [append_assoc]

/-- The target of an assignment is not lowered by itself, and is not misused. -/
theorem target {o : Occurrence} (htarget : o.misuse? = none)
    (hbase : o.offence? limit = none → base.error? = none) :
    Stretch limit start [o] base fun _ _ => base where
  apart _ _ _ := rfl
  passes hclear := hbase (hclear o (by simp))
  comes before o' after hsplit _ hmisuse := by
    have ho' : o' ∈ [o] := by simp [hsplit]
    rw [List.mem_singleton] at ho'
    exact absurd (ho' ▸ htarget) hmisuse

end Stretch

namespace Part

/-- A part with `x` in the place of one occurrence in what is lowered in it. The occurrences are
numbered from `start` on. -/
@[simp] def replaceFrom (place start : Nat) (x : Expr) : Part → Part
  | below e depth => below (e.replaceFrom place start x) depth
  | part => part

/-- Parts in turn with `x` in the place of one occurrence in what is lowered in them. -/
@[simp] def replaceAll (place : Nat) (x : Expr) : Nat → List Part → List Part
  | _, [] => []
  | start, part :: rest =>
    part.replaceFrom place start x :: replaceAll place x (start + part.occurrences.length) rest

/-- A part is a stretch, with every replacement in it. -/
def Replaces (limit start : Nat) (part : Part) : Prop :=
  Stretch limit start part.occurrences (part.transcript limit)
    fun place x => (part.replaceFrom place start x).transcript limit

/-- Nothing is refused in a part but for its depth, or in what is lowered in it. -/
def InOrder : Part → Prop
  | arrive o _ => o.misuse? = none
  | misplaced .. => False
  | unassignable .. => False
  | _ => True

/-- Parts in turn are a stretch if each of them is. -/
theorem stretch_inTurn {limit : Nat} {parts : List Part}
    (h : ∀ part ∈ parts, ∀ start, part.Replaces limit start) (start : Nat) :
    Stretch limit start (parts.flatMap occurrences) (inTurn limit parts)
      fun place x => inTurn limit (replaceAll place x start parts) := by
  induction parts generalizing start with
  | nil => exact .step rfl
  | cons part rest ih =>
    exact (h part (by simp) start).append (ih (fun p hp => h p (by simp [hp])) _)

end Part

namespace Expr

open Stretch

variable {limit start depth : Nat}

/-- An expression that lies at the given depth is a stretch, with every replacement in it. -/
def Replaces (limit start : Nat) (e : Expr) (depth : Nat) : Prop :=
  Stretch limit start (e.occurrencesAt false depth) (e.transcript limit depth)
    fun place x => (e.replaceFrom place start x).transcript limit depth

/-- Nothing is refused in storing elements. -/
theorem inOrder_elementParts (depth position : Nat) (es : List Expr) :
    ∀ part ∈ elementParts depth position es, part.InOrder := by
  induction es generalizing position with
  | nil => simp [elementParts]
  | cons e rest ih => simpa [elementParts, Part.InOrder] using ih (position + 1)

/-- Nothing is refused in lowering a node that is not misused. -/
theorem inOrder_laterParts {e : Expr} (hmisuse : (Occurrence.mk e depth false).misuse? = none) :
    ∀ part ∈ e.laterParts depth, part.InOrder := by
  cases e using shape_induction with
  | arrayIndex => simp [Occurrence.misuse?] at hmisuse
  | assignOther id left right hleft => simp [Occurrence.misuse?, hleft] at hmisuse
  | newArray id element elements =>
    simpa [laterParts, Part.InOrder] using inOrder_elementParts (depth + 1) 0 elements
  | constant | parameter | member | assignMember | assignElement | assignLocal | callStatic
  | callVirtual | block =>
    simp [laterParts, operandParts, or_imp, forall_and, Part.InOrder, Occurrence.misuse?]

/-- Replacing in operands, and in what follows them. -/
theorem replaceAll_operandParts (place : Nat) (x : Expr) (start depth : Nat) (es : List Expr)
    (rest : List Part) :
    Part.replaceAll place x start (operandParts depth es ++ rest) =
      operandParts depth (replaceAll es place start x) ++
        Part.replaceAll place x (start + (occurrencesAll 0 es).length) rest := by
  induction es generalizing start with
  | nil => rfl
  | cons e es ih =>
    have hnext := ih (start + e.size)
    rw [Nat.add_assoc] at hnext
    simp only [operandParts, List.map_cons, List.cons_append, Part.replaceAll, replaceAll,
      Part.occurrences, length_occurrencesAt, occurrencesAll, List.length_append] at hnext ⊢
    rw [hnext]
    rfl

/-- Replacing in elements. -/
theorem replaceAll_elementParts (place : Nat) (x : Expr) (start depth position : Nat)
    (es : List Expr) :
    Part.replaceAll place x start (elementParts depth position es) =
      elementParts depth position (replaceAll es place start x) := by
  induction es generalizing start position with
  | nil => rfl
  | cons e rest ih =>
    have hnext := ih (start + e.size) (position + 1)
    simp [elementParts, replaceAll, hnext]

/-- What becomes of a node if something below it is replaced. Nothing is said of an assignment whose
target is replaced. -/
theorem transcript_replaceFrom {e : Expr} {place : Nat}
    (hmisuse : (Occurrence.mk e depth false).misuse? = none) (hplace : start ≠ place)
    (htarget : ∀ o ∈ ((e.laterParts depth).flatMap Part.occurrences).head?,
      o.misuse? = none → start + 1 ≠ place) (x : Expr) :
    (e.replaceFrom place start x).transcript limit depth =
      enter limit e.kind depth ++ reportLocals e.declared ++
        Part.inTurn limit (Part.replaceAll place x (start + 1) (e.laterParts depth)) := by
  cases e using shape_induction with
  | arrayIndex => simp [Occurrence.misuse?] at hmisuse
  | assignOther id left right hleft => simp [Occurrence.misuse?, hleft] at hmisuse
  | assignMember id leftId target field right =>
    have hplace' : start + 1 ≠ place := htarget _ rfl rfl
    have hstart : start + 1 + (member leftId target field).size = start + 1 + 1 + target.size := by
      rw [size_member]
      omega
    simp [replaceFrom, hplace, hplace', hstart, transcript_eq_inTurn (assign ..), parts, laterParts,
      kind, declared]
  | assignElement id leftId array index right =>
    have hplace' : start + 1 ≠ place := htarget _ rfl rfl
    have hstart : start + 1 + (arrayIndex leftId array index).size =
        start + 1 + 1 + array.size + index.size := by
      rw [size_arrayIndex]
      omega
    simp [replaceFrom, hplace, hplace', hstart, transcript_eq_inTurn (assign ..), parts, laterParts,
      kind, declared]
  | assignLocal id leftId var right =>
    have hplace' : start + 1 ≠ place := htarget _ rfl rfl
    have hstart : start + 1 + (parameter leftId var).size = start + 1 + 1 := rfl
    simp [replaceFrom, hplace, hplace', hstart, transcript_eq_inTurn (assign ..), parts, laterParts,
      kind, declared]
  | constant | parameter | member | callStatic | callVirtual | newArray | block =>
    simp [replaceFrom, hplace, transcript_eq_inTurn, parts, laterParts, kind, declared,
      replaceAll_operandParts, replaceAll_elementParts, length_replaceAll, append_assoc]

/-- A node is come to before what lies below it, and a replacement of the node replaces all of it.
What becomes of an assignment whose target is replaced is left open. -/
theorem replaces_node {e : Expr} {os : List Occurrence} {base : Transcript}
    {t : Nat → Expr → Transcript} (h : Stretch limit (start + 1) os base t)
    (hos : e.occurrencesAt false depth = ⟨e, depth, false⟩ :: os)
    (hbase : e.transcript limit depth = enter limit e.kind depth ++ base)
    (hbelow : ∀ place x, start ≠ place →
      (∀ o ∈ os.head?, o.misuse? = none → start + 1 ≠ place) →
      (e.replaceFrom place start x).transcript limit depth =
        enter limit e.kind depth ++ t place x) :
    e.Replaces limit start depth := by
  unfold Replaces
  rw [hos]
  refine ⟨fun place x hplace => ?_, fun hclear => ?_,
    fun before o after hsplit hbefore hmisuse => ?_⟩
  · rw [List.length_cons] at hplace
    rw [hbase, hbelow place x (by omega) ?_, h.apart place x (by omega)]
    intro o ho _
    have hpos : 0 < os.length := List.length_pos_iff_exists_mem.mpr ⟨o, List.mem_of_mem_head? ho⟩
    omega
  · have hdepth := (Occurrence.offence?_eq_none_iff.mp (hclear ⟨e, depth, false⟩ (by simp))).1
    have hpasses := h.passes fun o ho => hclear o (by simp [ho])
    rw [hbase]
    simpa [hpasses] using hdepth
  · cases before with
    | nil =>
      obtain ⟨rfl, -⟩ := List.cons.inj hsplit
      exact ⟨done, done, rfl, by simp, by simp⟩
    | cons b before =>
      rw [List.cons_append, List.cons_eq_cons] at hsplit
      obtain ⟨rfl, hsplit⟩ := hsplit
      have hdepth := (Occurrence.offence?_eq_none_iff.mp (hbefore ⟨e, depth, false⟩ (by simp))).1
      have hentered : (enter limit e.kind depth).error? = none :=
        error?_enter_eq_none_iff.mpr hdepth
      obtain ⟨first, last, hfirst, hcut, hcomes⟩ := h.comes before o after hsplit
        (fun b hb => hbefore b (by simp [hb])) hmisuse
      refine ⟨enter limit e.kind depth ++ first, last, ?_, ?_, fun x => ?_⟩
      · rw [error?_append, hentered, hfirst]
        rfl
      · rw [hbase, hcut]
        simp only [append_assoc]
      · have hplace : start + (⟨e, depth, false⟩ :: before).length = start + 1 + before.length := by
          rw [List.length_cons]
          omega
        rw [hplace, hbelow _ x (by omega) ?_, hcomes x]
        · simp only [append_assoc]
        · -- A target at the head of the stretch would be the occurrence itself.
          intro o' ho' htarget heq
          have hnil : before = [] := List.length_eq_zero_iff.mp (by omega)
          rw [hsplit, hnil, List.nil_append, List.head?_cons, Option.mem_some_iff] at ho'
          exact hmisuse (ho' ▸ htarget)

/-- A node that is misused is refused, and nothing below it is come to. -/
theorem replaces_misused {e : Expr} (hmisuse : (Occurrence.mk e depth false).misuse? ≠ none)
    (hsize : 1 < e.size) (happart : ∀ place x, start ≠ place → start + 1 ≠ place →
      (e.replaceFrom place start x).transcript limit depth = e.transcript limit depth) :
    e.Replaces limit start depth := by
  have hoffence : (Occurrence.mk e depth false).offence? limit ≠ none := by
    unfold Occurrence.offence?
    split
    · simp
    · exact hmisuse
  obtain ⟨below, hos⟩ := e.occurrencesAt_eq_cons false depth
  unfold Replaces
  rw [hos]
  refine ⟨fun place x hplace => ?_, fun hclear => ?_, fun before o after hsplit hbefore _ => ?_⟩
  · have hlength := e.length_occurrencesAt false depth
    rw [hos, List.length_cons] at hlength
    rw [List.length_cons] at hplace
    exact happart place x (by omega) (by omega)
  · exact absurd (hclear _ (by simp)) hoffence
  · cases before with
    | nil =>
      obtain ⟨rfl, -⟩ := List.cons.inj hsplit
      exact ⟨done, done, rfl, by simp, by simp⟩
    | cons b before =>
      obtain ⟨rfl, -⟩ := List.cons.inj hsplit
      exact absurd (hbefore _ (by simp)) hoffence

/-- Misused nodes are refused, whatever is replaced below them, unless it is the target of an
assignment. -/
theorem replaces_of_misuse {e : Expr} (hmisuse : (Occurrence.mk e depth false).misuse? ≠ none) :
    e.Replaces limit start depth := by
  cases e using shape_induction with
  | arrayIndex id array index =>
    have hsize : 1 < (Expr.arrayIndex id array index).size := by
      have hpos := array.size_pos
      rw [size_arrayIndex]
      omega
    refine replaces_misused hmisuse hsize fun place x hplace _ => ?_
    rw [replaceFrom, if_neg hplace, transcript, transcript]
  | assignOther id left right hleft =>
    have hsize : 1 < (Expr.assign id left right).size := by
      have hpos := left.size_pos
      rw [size_assign]
      omega
    refine replaces_misused hmisuse hsize fun place x hplace hplace' => ?_
    have hkind := kind_replaceFrom (e := left) hplace' x
    have hleft' : (left.replaceFrom place (start + 1) x).isAssignable = false := by
      rwa [isAssignable, hkind]
    rw [replaceFrom, if_neg hplace, transcript_assign_of_not_assignable hleft,
      transcript_assign_of_not_assignable hleft', hkind]
  | constant | parameter | member | assignMember | assignElement | assignLocal | callStatic
  | callVirtual | newArray | block =>
    simp [Occurrence.misuse?, isAssignable, kind] at hmisuse

/-- Every expression is a stretch. -/
theorem replaces (e : Expr) (start depth : Nat) : e.Replaces limit start depth := by
  induction e, depth using parts_induction generalizing start with
  | step e depth ih =>
    by_cases hmisuse : (Occurrence.mk e depth false).misuse? = none
    · have hparts : ∀ part ∈ e.laterParts depth, ∀ start, part.Replaces limit start := by
        intro part hpart start
        have hclear := inOrder_laterParts hmisuse part hpart
        cases part with
        | arrive o =>
          refine target hclear fun hnone => ?_
          simpa using (Occurrence.offence?_eq_none_iff.mp hnone).1
        | pass => exact target rfl fun _ => rfl
        | give i => exact step (error?_put i)
        | misplaced => exact hclear.elim
        | unassignable => exact hclear.elim
        | below x depth' => exact ih x depth' (List.mem_cons_of_mem _ hpart) start
      have hbelow : Stretch limit (start + 1) _ (reportLocals e.declared ++ _) _ :=
        (step (error?_reportLocals e.declared)).append (Part.stretch_inTurn hparts (start + 1))
      refine replaces_node hbelow ?_ ?_ fun place x hplace htarget => ?_
      · rw [occurrencesAt_eq_flatMap_parts]
        rfl
      · rw [transcript_eq_inTurn, ← append_assoc]
        rfl
      · rw [transcript_replaceFrom hmisuse hplace htarget, append_assoc]
    · exact replaces_of_misuse hmisuse

end Expr

/-- An offence that is not one of depth is a misuse within the limit. -/
theorem Occurrence.misuse?_of_offence? {o : Occurrence} {limit : Nat} {error : LowerError}
    (h : o.offence? limit = some error) (herror : error ≠ .nestingTooDeep (limit + 1) limit) :
    o.depth ≤ limit ∧ o.misuse? = some error := by
  unfold offence? at h
  split at h
  · exact absurd (Option.some.inj h).symm herror
  · exact ⟨by omega, h⟩

/-- What is no offence is no misuse. -/
theorem Occurrence.misuse?_eq_none {o : Occurrence} {limit : Nat} (h : o.offence? limit = none) :
    o.misuse? = none := by
  unfold offence? at h
  split at h
  · contradiction
  · exact h

namespace Expr

/-- A node that is misused within the limit stops lowering before it hands anything over. -/
theorem transcript_of_misuse {o : Occurrence} {limit : Nat} {error : LowerError}
    (hmisuse : o.misuse? = some error) (hdepth : o.depth ≤ limit) :
    (o.node.transcript limit o.depth).error? = some error ∧
      (o.node.transcript limit o.depth).instructions = [] := by
  have hentered (kind : Kind) : (enter limit kind o.depth).error? = none :=
    error?_enter_eq_none_iff.mpr hdepth
  unfold Occurrence.misuse? at hmisuse
  split at hmisuse
  case h_1 id array index hnode =>
    obtain ⟨-, herror⟩ := Option.ite_none_left_eq_some.mp hmisuse
    rw [hnode, transcript, error?_append, instructions_append (hentered _), instructions_enter,
      hentered, ← herror]
    exact ⟨rfl, rfl⟩
  case h_2 id left right hnode =>
    obtain ⟨hleft, herror⟩ := Option.ite_none_left_eq_some.mp hmisuse
    rw [Bool.not_eq_true] at hleft
    rw [hnode, transcript_assign_of_not_assignable hleft, append_assoc, error?_append,
      instructions_append (hentered _), instructions_enter, hentered, ← herror]
    exact ⟨rfl, rfl⟩
  case h_3 => contradiction

/-- Lowering that refuses a node for what it is, and not for its depth, stops at the first
occurrence in preorder that is misused. A constant in the place of that occurrence is pushed right
after what was handed over, whether lowering then succeeds or not. What was handed over is the same
for whatever else is refused in that place, so nothing of the refused node or of what follows it
was. -/
theorem lowerInto_stops_at_misuse (e : Expr) (limit : Nat) (error : LowerError)
    (hfails : (e.lowerInto Code.sink Code.empty limit).error? = some error)
    (herror : (∃ kind, error = .invalidAssignmentTarget kind) ∨
      ∃ kind context, error = .unsupportedNode kind context) :
    ∃ before o after, e.occurrences = before ++ o :: after ∧ o.misuse? = some error ∧
      (∀ b ∈ before, b.misuse? = none) ∧
      (∀ id value, e.stream limit ++ [.pushLiteral value] <+:
        (e.replaceAt before.length (.constant id value)).stream limit) ∧
      ∀ x, (Occurrence.mk x o.depth false).misuse? ≠ none →
        (e.replaceAt before.length x).stream limit = e.stream limit := by
  have hnotDeep : error ≠ .nestingTooDeep (limit + 1) limit := by
    rcases herror with ⟨kind, rfl⟩ | ⟨kind, context, rfl⟩ <;> simp
  have hstops : (e.transcript limit 0).error? = some error := by rwa [lowerInto_eq] at hfails
  rw [e.error?_transcript (Nat.zero_le limit), firstOffence?, List.findSome?_eq_some_iff] at hstops
  obtain ⟨before, o, after, hsplit, hoffence, hbefore⟩ := hstops
  obtain ⟨hdepth, hmisuse⟩ := Occurrence.misuse?_of_offence? hoffence hnotDeep
  obtain ⟨first, last, hfirst, hbase, hcomes⟩ :=
    (e.replaces 0 0).comes before o after hsplit hbefore (by simp [hmisuse])
  -- What is refused in this place adds nothing to what was handed over before.
  have hrefused (o' : Occurrence) (error' : LowerError) (hdepth' : o'.depth = o.depth)
      (hmisuse' : o'.misuse? = some error') :
      (first ++ o'.node.transcript limit o.depth ++ last).instructions = first.instructions := by
    rw [← hdepth'] at hdepth ⊢
    obtain ⟨hstop, hnothing⟩ := transcript_of_misuse hmisuse' hdepth
    rw [append_assoc, append_of_error?_eq_some hstop, instructions_append hfirst, hnothing,
      List.append_nil]
  have hstream : e.stream limit = first.instructions := by
    rw [stream_eq, hbase, hrefused o error rfl hmisuse]
  have hreplaced (x : Expr) : (e.replaceAt before.length x).stream limit =
      (first ++ x.transcript limit o.depth ++ last).instructions := by
    rw [stream_eq, replaceAt, ← hcomes x, Nat.zero_add]
  refine ⟨before, o, after, hsplit, hmisuse, fun b hb => Occurrence.misuse?_eq_none (hbefore b hb),
    fun id value => ?_, fun x hx => ?_⟩
  · rw [hstream, hreplaced, transcript, append_assoc, instructions_append hfirst,
      List.prefix_append_right_inj, append_assoc,
      instructions_append (error?_enter_eq_none_iff.mpr hdepth), instructions_enter]
    simp
  · obtain ⟨error', herror'⟩ := Option.ne_none_iff_exists'.mp hx
    rw [hstream, hreplaced]
    exact hrefused ⟨x, o.depth, false⟩ error' rfl herror'

/-- An array literal whose second element reads an element, which has no code. -/
theorem lowerInto_stops_at_misuse_literal :
    let e := newArray 8 .int [Sample.zero, Sample.element "xs", Sample.zero]
    let error := LowerError.unsupportedNode .arrayIndex Lower.elementContext
    (e.lowerInto Code.sink Code.empty 9).error? = some error ∧
      e.stream 9 = [.pushInt 3, .newArray .int, .dupArrayRef, .pushInt 0, .pushLiteral (.int 0),
        .storeArrayElement, .dupArrayRef, .pushInt 1] ∧
      ∃ before o after, e.occurrences = before ++ o :: after ∧ o.misuse? = some error ∧
        ∀ id value, e.stream 9 ++ [.pushLiteral value] <+:
          (e.replaceAt before.length (.constant id value)).stream 9 := by
  intro e error
  have hfails : (e.lowerInto Code.sink Code.empty 9).error? = some error := by decide
  obtain ⟨before, o, after, hsplit, hmisuse, -, hconstant, -⟩ :=
    lowerInto_stops_at_misuse e 9 error hfails (.inr ⟨_, _, rfl⟩)
  exact ⟨hfails, by decide, before, o, after, hsplit, hmisuse, hconstant⟩

end Expr

end MethodBody
