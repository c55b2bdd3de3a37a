import MethodBody.Proofs.Playback

/-!
# Which expressions have code

Whether an expression can be lowered, and what it is refused for, is decided by its occurrences one
by one: each is too deep, out of place, a bad assignment, or in order. Lowering checks them in four
different places on its way through the tree. The result is the same as going through all
occurrences in preorder and taking the first one that is not in order.
-/

namespace MethodBody

namespace Occurrence

/-- What is wrong with an occurrence apart from its depth. An array element has no meaning but as
the target of an assignment, and only some nodes describe a place that can be assigned to. -/
def misuse? (o : Occurrence) : Option LowerError :=
  match o.node with
  | .arrayIndex .. =>
    if o.isTarget then none else some (.unsupportedNode .arrayIndex Lower.elementContext)
  | .assign _ left _ =>
    if left.isAssignable then none else some (.invalidAssignmentTarget left.kind)
  | _ => none

/-- What is wrong with an occurrence, if anything. Its depth is checked first. -/
def offence? (limit : Nat) (o : Occurrence) : Option LowerError :=
  if limit < o.depth then some (.nestingTooDeep (limit + 1) limit) else o.misuse?

/-- Depth is found wrong only where it exceeds the limit, and then the first depth beyond the limit
is given. -/
theorem tooDeep_of_offence? {o : Occurrence} {limit depth max : Nat}
    (h : o.offence? limit = some (.nestingTooDeep depth max)) :
    limit < o.depth ∧ depth = limit + 1 ∧ max = limit := by
  unfold offence? at h
  split at h
  · cases h
    exact ⟨‹_›, rfl, rfl⟩
  · unfold misuse? at h
    split at h <;> simp at h

end Occurrence

/-- The first thing that is wrong in a list of occurrences. -/
def firstOffence? (limit : Nat) (os : List Occurrence) : Option LowerError :=
  os.findSome? (·.offence? limit)

variable {limit : Nat}

/-- Nothing is wrong where nothing occurs. -/
@[simp] theorem firstOffence?_nil : firstOffence? limit [] = none := rfl

/-- What is wrong with the first occurrence comes before what is wrong with the others. -/
@[simp] theorem firstOffence?_cons (o : Occurrence) (rest : List Occurrence) :
    firstOffence? limit (o :: rest) = (o.offence? limit).or (firstOffence? limit rest) := by
  unfold firstOffence?
  rw [List.findSome?_cons]
  cases o.offence? limit <;> rfl

/-- What is wrong in a first list of occurrences comes before what is wrong in a second. -/
@[simp] theorem firstOffence?_append (xs ys : List Occurrence) :
    firstOffence? limit (xs ++ ys) = (firstOffence? limit xs).or (firstOffence? limit ys) := by
  simp [firstOffence?, List.findSome?_append]

namespace Expr

/-- The root is the first occurrence. -/
theorem occurrencesAt_eq_cons (e : Expr) (target : Bool) (depth : Nat) :
    ∃ rest, e.occurrencesAt target depth = ⟨e, depth, target⟩ :: rest := by
  cases e with
  | call id receiver sig args =>
    cases receiver with
    | none => exact ⟨_, by rw [occurrencesAt]⟩
    | some receiver => exact ⟨_, by rw [occurrencesAt]⟩
  | constant | parameter | member | assign | block | arrayIndex | newArray =>
    exact ⟨_, by rw [occurrencesAt]⟩

/-- An expression that lies too deep is refused at once. -/
theorem error?_transcript_of_lt (e : Expr) {depth : Nat} (hdeep : limit < depth) :
    (e.transcript limit depth).error? = some (.nestingTooDeep depth limit) := by
  cases e using shape_induction with
  | assignOther id left right hleft =>
    simp [transcript_assign_of_not_assignable hleft, hdeep]
  | constant | parameter | member | arrayIndex | assignMember | assignElement | assignLocal
  | callStatic | callVirtual | newArray | block => simp [transcript, hdeep]

/-- Several expressions are refused for the first offence in them if each one is. -/
theorem error?_transcriptAll {es : List Expr} {depth : Nat}
    (hes : ∀ e ∈ es, (e.transcript limit depth).error? =
      firstOffence? limit (e.occurrencesAt false depth)) :
    (transcriptAll limit es depth).error? = firstOffence? limit (occurrencesAll depth es) := by
  induction es with
  | nil => rfl
  | cons e rest ih =>
    rw [transcriptAll, Transcript.error?_append, hes e (by simp),
      ih fun x hx => hes x (by simp [hx]), occurrencesAll, firstOffence?_append]

/-- The elements of an array literal are refused for the first offence in them if each one is. -/
theorem error?_transcriptElements {es : List Expr} {depth : Nat}
    (hes : ∀ e ∈ es, (e.transcript limit depth).error? =
      firstOffence? limit (e.occurrencesAt false depth)) (position : Nat) :
    (transcriptElements limit es position depth).error? =
      firstOffence? limit (occurrencesAll depth es) := by
  induction es generalizing position with
  | nil => rfl
  | cons e rest ih =>
    have hrest := ih (fun x hx => hes x (by simp [hx])) (position + 1)
    simp [transcriptElements, occurrencesAll, hes e (by simp), hrest]

/-- An expression that lies just past the limit is refused for its depth. -/
theorem error?_transcript_of_edge (e : Expr) (target : Bool) :
    (e.transcript limit (limit + 1)).error? =
      firstOffence? limit (e.occurrencesAt target (limit + 1)) := by
  obtain ⟨rest, hrest⟩ := e.occurrencesAt_eq_cons target (limit + 1)
  rw [hrest, error?_transcript_of_lt e (Nat.lt_succ_self limit)]
  simp [Occurrence.offence?]

/-- Depths grow by one from a node to its children. So what is shown of all depths within the limit
holds of the children of a node within the limit too. -/
theorem error?_transcript_succ {e : Expr} {depth : Nat} (hdepth : depth ≤ limit)
    (h : ∀ {depth}, depth ≤ limit → (e.transcript limit depth).error? =
      firstOffence? limit (e.occurrencesAt false depth)) :
    (e.transcript limit (depth + 1)).error? =
      firstOffence? limit (e.occurrencesAt false (depth + 1)) := by
  by_cases hedge : depth = limit
  · subst hedge
    exact e.error?_transcript_of_edge false
  · exact h (by omega)

/-- An expression within the limit is refused for the first offence in it. -/
theorem error?_transcript (e : Expr) {depth : Nat} (hdepth : depth ≤ limit) :
    (e.transcript limit depth).error? = firstOffence? limit (e.occurrencesAt false depth) := by
  induction e using shape_induction generalizing depth with
  | constant id value =>
    have hin : ¬ limit < depth := by omega
    simp [transcript, occurrencesAt, Occurrence.offence?, Occurrence.misuse?, hin]
  | parameter id var =>
    have hin : ¬ limit < depth := by omega
    simp [transcript, occurrencesAt, Occurrence.offence?, Occurrence.misuse?, hin]
  | arrayIndex id array index =>
    have hin : ¬ limit < depth := by omega
    simp [transcript, occurrencesAt, Occurrence.offence?, Occurrence.misuse?, hin]
  | member id target field ih =>
    have hin : ¬ limit < depth := by omega
    simp [transcript, occurrencesAt, Occurrence.offence?, Occurrence.misuse?, hin,
      error?_transcript_succ hdepth ih]
  | assignLocal id leftId var right hright =>
    have hin : ¬ limit < depth := by omega
    by_cases hedge : depth = limit
    · -- The variable is never come to, but the value lies at the same depth and is.
      subst hedge
      simp [transcript, occurrencesAt, Occurrence.offence?, Occurrence.misuse?, isAssignable, kind,
        error?_transcript_of_lt]
    · have hin' : ¬ limit < depth + 1 := by omega
      simp [transcript, occurrencesAt, Occurrence.offence?, Occurrence.misuse?, isAssignable, kind,
        hin, hin', error?_transcript_succ hdepth hright]
  | assignMember id leftId target field right htarget hright =>
    have hin : ¬ limit < depth := by omega
    by_cases hedge : depth = limit
    · subst hedge
      simp [transcript, occurrencesAt, Occurrence.offence?, Occurrence.misuse?, isAssignable, kind]
    · have hin' : ¬ limit < depth + 1 := by omega
      have hbelow : depth + 1 ≤ limit := by omega
      simp [transcript, occurrencesAt, Occurrence.offence?, Occurrence.misuse?, isAssignable, kind,
        hin, hin', error?_transcript_succ hbelow htarget, error?_transcript_succ hdepth hright]
  | assignElement id leftId array index right harray hindex hright =>
    have hin : ¬ limit < depth := by omega
    by_cases hedge : depth = limit
    · subst hedge
      simp [transcript, occurrencesAt, Occurrence.offence?, Occurrence.misuse?, isAssignable, kind]
    · have hin' : ¬ limit < depth + 1 := by omega
      have hbelow : depth + 1 ≤ limit := by omega
      simp [transcript, occurrencesAt, Occurrence.offence?, Occurrence.misuse?, isAssignable, kind,
        hin, hin', error?_transcript_succ hbelow harray, error?_transcript_succ hbelow hindex,
        error?_transcript_succ hdepth hright, Option.or_assoc]
  | assignOther id left right hleft =>
    have hin : ¬ limit < depth := by omega
    simp [transcript_assign_of_not_assignable hleft, occurrencesAt, Occurrence.offence?,
      Occurrence.misuse?, hin, hleft]
  | callStatic id sig args hargs =>
    have hin : ¬ limit < depth := by omega
    have hall := error?_transcriptAll fun a ha => error?_transcript_succ hdepth (hargs a ha)
    simp [transcript, occurrencesAt, Occurrence.offence?, Occurrence.misuse?, hin, hall]
  | callVirtual id receiver sig args hreceiver hargs =>
    have hin : ¬ limit < depth := by omega
    have hall := error?_transcriptAll fun a ha => error?_transcript_succ hdepth (hargs a ha)
    simp [transcript, occurrencesAt, Occurrence.offence?, Occurrence.misuse?, hin, hall,
      error?_transcript_succ hdepth hreceiver]
  | newArray id element elements helements =>
    have hin : ¬ limit < depth := by omega
    have hall := error?_transcriptElements
      (fun x hx => error?_transcript_succ hdepth (helements x hx)) 0
    simp [transcript, occurrencesAt, Occurrence.offence?, Occurrence.misuse?, hin, hall]
  | block id ty locals statements result hstatements hresult =>
    have hin : ¬ limit < depth := by omega
    have hall := error?_transcriptAll fun x hx => error?_transcript_succ hdepth (hstatements x hx)
    simp [transcript, occurrencesAt, Occurrence.offence?, Occurrence.misuse?, hin, hall,
      error?_transcript_succ hdepth hresult]

/-- The root lies within every limit, so a whole tree is refused for the first offence in it. -/
theorem error?_compile_eq (e : Expr) (limit : Nat) :
    (e.compile limit).error? = firstOffence? limit e.occurrences := by
  rw [error?_compile, e.error?_transcript (Nat.zero_le limit), occurrences]

/-- The left sides that are assignable, by kind. -/
theorem isAssignable_iff {e : Expr} :
    e.isAssignable = true ↔ e.kind = .member ∨ e.kind = .arrayIndex ∨ e.kind = .parameter := by
  unfold isAssignable
  cases e.kind <;> simp

end Expr

/-- An occurrence is in order if it is within the limit, assigns to an assignable left side if it
assigns, and is the target of an assignment if it is an array element. -/
theorem Occurrence.offence?_eq_none_iff {o : Occurrence} :
    o.offence? limit = none ↔
      o.depth ≤ limit ∧ (o.node.kind = .arrayIndex → o.isTarget = true) ∧
        ∀ id left right, o.node = .assign id left right → left.isAssignable = true := by
  unfold offence?
  by_cases hdeep : limit < o.depth
  · have hout : ¬ o.depth ≤ limit := by omega
    simp [hdeep, hout]
  · have hin : o.depth ≤ limit := by omega
    rw [if_neg hdeep]
    cases hnode : o.node <;> simp [hin, misuse?, hnode, Expr.kind]

/-- A method body compiles exactly if all left sides of assignments are assignable, array elements
occur as left sides only, and nothing lies deeper than the limit. If it does not compile, the error
is that of the first occurrence in preorder that is not in order. -/
theorem Expr.compile_refuses_first_offence (e : Expr) (limit : Nat) :
    ((e.compile limit).error? = none ↔
      (∀ o ∈ e.occurrences, ∀ id left right, o.node = .assign id left right →
        left.kind = .member ∨ left.kind = .arrayIndex ∨ left.kind = .parameter) ∧
      (∀ o ∈ e.occurrences, o.node.kind = .arrayIndex → o.isTarget = true) ∧
      (∀ o ∈ e.occurrences, o.depth ≤ limit)) ∧
    ∀ error, (e.compile limit).error? = some error ↔
      ∃ before o after, e.occurrences = before ++ o :: after ∧
        o.offence? limit = some error ∧ ∀ b ∈ before, b.offence? limit = none := by
  rw [error?_compile_eq, firstOffence?]
  constructor
  · rw [List.findSome?_eq_none_iff]
    simp only [Occurrence.offence?_eq_none_iff, isAssignable_iff]
    constructor
    · intro h
      exact ⟨fun o ho => (h o ho).2.2, fun o ho => (h o ho).2.1, fun o ho => (h o ho).1⟩
    · rintro ⟨hassign, hindex, hdepth⟩ o ho
      exact ⟨hdepth o ho, hindex o ho, hassign o ho⟩
  · intro error
    rw [List.findSome?_eq_some_iff]

end MethodBody
