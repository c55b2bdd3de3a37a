import MethodBody.Proofs.Meaning
import MethodBody.Proofs.Parts
import MethodBody.Proofs.Stream

/-!
# The numbers in the code of array literals

Lowering pushes integers of its own for array literals only: the length, and before each element the
position that it is stored to. Both are natural numbers that are cast to 32 bits on the way, and the
cast is not checked. It changes nothing, since no construction admits a literal whose length does
not fit.

`Transcript.Explained` says of a part of lowering where its numbers come from, and parts are put one
after the other by `Explained.append`. While the elements of a literal are lowered, its positions
belong to a literal that is not complete yet, so a part may have numbers of its own that are left to
be explained by what it is part of.
-/

namespace MethodBody

open Transcript

/-- The number that a literal pushes next, after what was handed over for it so far: the length at
first, and then the position of each element once the elements before it are stored. -/
inductive Announces (ty : Ty) (es : List Expr) : List Instruction → Nat → Prop where
  | length : Announces ty es [] es.length
  | position {n : Nat} (hn : n < es.length) :
      Announces ty es (.pushInt (Int32.ofNat es.length) :: .newArray ty ::
        (Expr.codeElements 0 (es.take n) ++ [.dupArrayRef])) n

/-- No literal announces more than its length. -/
theorem Announces.le_length {ty : Ty} {es : List Expr} {given : List Instruction} {n : Nat}
    (h : Announces ty es given n) : n ≤ es.length := by
  cases h with
  | length => exact Nat.le_refl _
  | position hn => exact Nat.le_of_lt hn

namespace Transcript

variable {limit : Nat} {t u : Transcript} {o : Occurrence} {os os' : List Occurrence}
  {begun : List Instruction} {n : Nat} {own : List Instruction → Nat → Prop}

/-- The node of an occurrence is come to after the instructions `begun`. -/
def ComesTo (t : Transcript) (limit : Nat) (o : Occurrence) (begun : List Instruction) : Prop :=
  ∃ first last, first.error? = none ∧ first.instructions = begun ∧
    t = first ++ o.node.transcript limit o.depth ++ last

/-- An expression comes to itself before anything is handed over. -/
theorem comesTo_self (limit depth : Nat) (e : Expr) (isTarget : Bool) :
    (e.transcript limit depth).ComesTo limit ⟨e, depth, isTarget⟩ [] :=
  ⟨done, done, rfl, rfl, by simp⟩

/-- What is come to in a first part is come to. -/
theorem ComesTo.before (h : t.ComesTo limit o begun) (u : Transcript) :
    (t ++ u).ComesTo limit o begun := by
  obtain ⟨first, last, hfirst, hbegun, rfl⟩ := h
  exact ⟨first, last ++ u, hfirst, hbegun, by simp only [append_assoc]⟩

/-- What is come to in a second part is come to after all that the first part handed over. -/
theorem ComesTo.after (h : u.ComesTo limit o begun) (ht : t.error? = none) :
    (t ++ u).ComesTo limit o (t.instructions ++ begun) := by
  obtain ⟨first, last, hfirst, rfl, rfl⟩ := h
  exact ⟨t ++ first, last, by simp [ht, hfirst], instructions_append ht first,
    by simp only [append_assoc]⟩

/-- After the instructions `before`, a literal among `os` that was come to pushes `n` next. -/
def Announced (t : Transcript) (limit : Nat) (os : List Occurrence) (before : List Instruction)
    (n : Nat) : Prop :=
  ∃ o ∈ os, ∃ id ty es begun given, o.node = .newArray id ty es ∧ t.ComesTo limit o begun ∧
    before = begun ++ given ∧ Announces ty es given n

/-- What is announced in a first part is announced. -/
theorem Announced.before (h : t.Announced limit os begun n) (u : Transcript) :
    (t ++ u).Announced limit os begun n := by
  obtain ⟨o, ho, id, ty, es, first, given, hnode, hcomes, hrest⟩ := h
  exact ⟨o, ho, id, ty, es, first, given, hnode, hcomes.before u, hrest⟩

/-- What is announced in a second part is announced after all that the first part handed over. -/
theorem Announced.after (h : u.Announced limit os begun n) (ht : t.error? = none) :
    (t ++ u).Announced limit os (t.instructions ++ begun) n := by
  obtain ⟨o, ho, id, ty, es, first, given, hnode, hcomes, rfl, hgiven⟩ := h
  exact ⟨o, ho, id, ty, es, t.instructions ++ first, given, hnode, hcomes.after ht, by simp,
    hgiven⟩

/-- More literals announce no less. -/
theorem Announced.mono (h : t.Announced limit os begun n) (hos : os ⊆ os') :
    t.Announced limit os' begun n := by
  obtain ⟨o, ho, hrest⟩ := h
  exact ⟨o, hos ho, hrest⟩

/-- Every number that is pushed is one of `own`, or a literal among `os` announces it. -/
def Explained (limit : Nat) (own : List Instruction → Nat → Prop) (os : List Occurrence)
    (t : Transcript) : Prop :=
  ∀ before v after, t.instructions = before ++ .pushInt v :: after →
    ∃ n, v = Int32.ofNat n ∧ (own before n ∨ t.Announced limit os before n)

/-- No numbers are left to be explained. -/
def nothing (_ : List Instruction) (_ : Nat) : Prop := False

/-- Parts of lowering one after the other. The own numbers of the second part come after all that
the first part handed over. -/
theorem Explained.append {own₁ own₂ : List Instruction → Nat → Prop}
    (ht : Explained limit own₁ os t) (hu : Explained limit own₂ os' u)
    (hown₁ : ∀ before n, own₁ before n → own before n)
    (hown₂ : t.error? = none → ∀ before n, own₂ before n → own (t.instructions ++ before) n) :
    Explained limit own (os ++ os') (t ++ u) := by
  have hfirst (before : List Instruction) (v : Int32) (after : List Instruction)
      (hsplit : t.instructions = before ++ .pushInt v :: after) : ∃ n, v = Int32.ofNat n ∧
        (own before n ∨ (t ++ u).Announced limit (os ++ os') before n) := by
    obtain ⟨n, hv, hn | hn⟩ := ht before v after hsplit
    · exact ⟨n, hv, .inl (hown₁ before n hn)⟩
    · exact ⟨n, hv, .inr ((hn.before u).mono (List.subset_append_left os os'))⟩
  intro before v after hsplit
  cases hstop : t.error? with
  | some error =>
    rw [append_of_error?_eq_some hstop] at hsplit
    exact hfirst before v after hsplit
  | none =>
    rw [instructions_append hstop] at hsplit
    rcases split_append hsplit with ⟨rest, hin, -⟩ | ⟨middle, rfl, hin⟩
    · exact hfirst before v rest hin
    · obtain ⟨n, hv, hn | hn⟩ := hu middle v after hin
      · exact ⟨n, hv, .inl (hown₂ hstop middle n hn)⟩
      · exact ⟨n, hv, .inr ((hn.after hstop).mono (List.subset_append_right os os'))⟩

/-- Then comes a part without numbers of its own. -/
theorem Explained.follow (ht : Explained limit own os t) (hu : Explained limit nothing os' u) :
    Explained limit own (os ++ os') (t ++ u) :=
  ht.append hu (fun _ _ h => h) fun _ _ _ h => h.elim

/-- There may be more occurrences than those that explain numbers. -/
theorem Explained.node (h : Explained limit own os t) (o : Occurrence) :
    Explained limit own (o :: os) t := by
  intro before v after hsplit
  obtain ⟨n, hv, hn⟩ := h before v after hsplit
  exact ⟨n, hv, hn.imp_right (·.mono (List.subset_cons_self o os))⟩

/-- A literal explains its own numbers. -/
theorem Explained.literal {id : NodeId} {ty : Ty} {es : List Expr} {depth : Nat}
    (h : Explained limit (Announces ty es) os ((Expr.newArray id ty es).transcript limit depth))
    (isTarget : Bool) :
    Explained limit nothing (⟨.newArray id ty es, depth, isTarget⟩ :: os)
      ((Expr.newArray id ty es).transcript limit depth) := by
  intro before v after hsplit
  obtain ⟨n, hv, hn | hn⟩ := h before v after hsplit
  · exact ⟨n, hv, .inr ⟨_, List.mem_cons_self, id, ty, es, [], before, rfl,
      comesTo_self limit depth _ isTarget, rfl, hn⟩⟩
  · exact ⟨n, hv, .inr (hn.mono (List.subset_cons_self _ os))⟩

/-- A part that pushes no numbers. -/
theorem explained_of_forall (h : ∀ v, .pushInt v ∉ t.instructions) : Explained limit own os t := by
  intro before v after hsplit
  exact absurd (by simp [hsplit]) (h v)

/-- Coming to a node pushes no numbers. -/
theorem explained_enter (limit : Nat) (kind : Kind) (depth : Nat) :
    Explained limit nothing [] (enter limit kind depth) :=
  explained_of_forall (by simp)

/-- An instruction of another kind pushes no number. -/
theorem explained_put {i : Instruction} (hi : ∀ v, i ≠ .pushInt v) :
    Explained limit nothing [] (put i) :=
  explained_of_forall fun v hv => hi v (List.mem_singleton.mp hv).symm

/-- Then a number is pushed. -/
theorem Explained.push (ht : Explained limit nothing os t) (n : Nat) :
    Explained limit (fun before m => before = t.instructions ∧ m = n) os
      (t ++ put (.pushInt (Int32.ofNat n))) := by
  have hpush : Explained limit (fun before m => before = [] ∧ m = n) []
      (put (.pushInt (Int32.ofNat n))) := by
    intro before v after hsplit
    rw [instructions_put, List.singleton_eq_append_iff] at hsplit
    obtain ⟨rfl, hrest⟩ | ⟨-, hnil⟩ := hsplit
    · obtain ⟨hv, -⟩ := List.cons.inj hrest
      injection hv with hv
      exact ⟨n, hv, .inl ⟨rfl, rfl⟩⟩
    · cases hnil
  rw [← List.append_nil os]
  refine ht.append hpush (fun _ _ h => h.elim) ?_
  rintro - before m ⟨rfl, rfl⟩
  exact ⟨by simp, rfl⟩

end Transcript

namespace Expr

variable {limit : Nat}

/-- The positions of the elements are pushed one after the other, each of them once the elements
before are stored. -/
theorem explained_transcriptElements {es : List Expr} {depth : Nat} (hes : ∀ e ∈ es,
      Explained limit nothing (e.occurrencesAt false depth) (e.transcript limit depth))
    (start : Nat) :
    Explained limit (fun before n => ∃ j < es.length, n = start + j ∧
        before = codeElements start (es.take j) ++ [.dupArrayRef])
      (occurrencesAll depth es) (transcriptElements limit es start depth) := by
  induction es generalizing start with
  | nil => exact explained_of_forall (by simp [transcriptElements])
  | cons e rest ih =>
    have hrest := ih (fun x hx => hes x (by simp [hx])) (start + 1)
    have hdup : Explained limit nothing [] (put .dupArrayRef) := explained_put (by simp)
    have hstored := ((hdup.push start).follow (hes e (by simp))).follow
      (explained_put (i := .storeArrayElement) (by simp))
    have hall : Explained limit (fun before n => ∃ j < (e :: rest).length, n = start + j ∧
        before = codeElements start ((e :: rest).take j) ++ [.dupArrayRef]) _ _ :=
      hstored.append hrest ?_ ?_
    · rw [transcriptElements, occurrencesAll]
      simpa using hall
    · rintro before n ⟨rfl, rfl⟩
      exact ⟨0, by simp, rfl, by simp [codeElements]⟩
    · rintro hnone before n ⟨j, hj, rfl, rfl⟩
      have he : e.Lowers limit depth := by simpa [Lowers] using hnone
      refine ⟨j + 1, by simpa using hj, by omega, ?_⟩
      simp [codeElements, append_assoc, instructions_append he.not_stopped, he.instructions_eq]

/-- The numbers of a literal and of its elements. -/
theorem explained_newArray {es : List Expr} {depth : Nat} (hes : ∀ e ∈ es,
      Explained limit nothing (e.occurrencesAt false (depth + 1)) (e.transcript limit (depth + 1)))
    (id : NodeId) (ty : Ty) :
    Explained limit (Announces ty es) (occurrencesAll (depth + 1) es)
      ((newArray id ty es).transcript limit depth) := by
  have hmade := ((explained_enter limit .newArray depth).push es.length).follow
    (explained_put (i := .newArray ty) (by simp))
  have hall : Explained limit (Announces ty es) _ _ :=
    hmade.append (explained_transcriptElements hes 0) ?_ ?_
  · rw [transcript]
    simpa using hall
  · rintro before n ⟨rfl, rfl⟩
    rw [instructions_enter]
    exact .length
  · rintro hnone before n ⟨j, hj, rfl, rfl⟩
    have hdepth : depth ≤ limit := by simpa using hnone
    have hposition : Announces ty es _ j := .position hj
    simpa [append_assoc, instructions_append, hdepth] using hposition

/-- Only literals push numbers by themselves. -/
theorem pushInt_not_mem_parts {e : Expr} (he : e.kind ≠ .newArray) (v : Int32) (depth : Nat) :
    .give (.pushInt v) ∉ e.parts depth := by
  cases e using shape_induction with
  | assignOther id left right hleft =>
    simp [parts, laterParts_assign_of_not_assignable hleft]
  | newArray => exact absurd rfl he
  | block id ty locals statements result =>
    have hreturn : .pushInt v ≠ if ty.isVoid then Instruction.returnVoid else .returnValue := by
      cases ty.isVoid <;> simp
    simp [parts, laterParts, operandParts, hreturn]
  | constant | parameter | member | arrayIndex | assignMember | assignElement | assignLocal
  | callStatic | callVirtual => simp [parts, laterParts, operandParts]

/-- Every number that is pushed comes from a literal that occurs in the expression. -/
theorem explained_transcript (e : Expr) (limit depth : Nat) :
    Explained limit nothing (e.occurrencesAt false depth) (e.transcript limit depth) := by
  induction e, depth using parts_induction with
  | step e depth ih =>
    by_cases hkind : e.kind = .newArray
    · cases e with
      | newArray id ty es =>
        rw [occurrencesAt]
        exact (explained_newArray (fun x hx => ih x _ (by simp [parts, laterParts, hx])) id
          ty).literal false
      | constant | parameter | member | assign | call | block | arrayIndex =>
        simp [kind] at hkind
    · rw [occurrencesAt_eq_flatMap_parts, transcript_eq_inTurn]
      have hnone (os : List Occurrence) {t : Transcript} (ht : t.instructions = []) :
          Explained limit nothing os t := explained_of_forall (by simp [ht])
      refine Part.inTurn_induction (Q := fun os t => Explained limit nothing os (t limit))
        (hnone [] rfl) .follow fun part hpart => ?_
      cases part with
      | arrive o =>
        exact ((explained_enter limit o.node.kind o.depth).follow (hnone [] (by simp))).node o
      | pass => exact hnone _ rfl
      | give i => exact explained_put fun v hv => pushInt_not_mem_parts hkind v depth (hv ▸ hpart)
      | misplaced => exact hnone _ rfl
      | unassignable => exact hnone _ rfl
      | below x depth' => exact ih x depth' hpart

/-- What is handed over to store an element, up to where lowering the element stops. -/
def storing (x : Expr) (limit depth : Nat) (position : Int32) : List Instruction :=
  .dupArrayRef :: .pushInt position :: ((x.transcript limit depth).instructions ++
    if (x.transcript limit depth).error? = none then [.storeArrayElement] else [])

/-- The code of a literal, as far as there are positions for its elements. -/
def filling (ty : Ty) (es : List Expr) (limit depth : Nat) (length : Int32)
    (positions : List Int32) : List Instruction :=
  .pushInt length :: .newArray ty ::
    (positions.zip es).flatMap fun (position, x) => x.storing limit depth position

/-- The elements are stored in order up to the first one that stops lowering. -/
theorem exists_instructions_transcriptElements (limit : Nat) (es : List Expr)
    (start depth : Nat) :
    ∃ count ≤ es.length, (transcriptElements limit es start depth).instructions =
        (((List.range' start count).map Int32.ofNat).zip es).flatMap
          (fun (position, x) => x.storing limit depth position) ∧
      ((transcriptElements limit es start depth).error? = none → count = es.length) := by
  induction es generalizing start with
  | nil => exact ⟨0, Nat.le_refl 0, by simp [transcriptElements], fun _ => rfl⟩
  | cons e rest ih =>
    cases he : (e.transcript limit depth).error? with
    | none =>
      obtain ⟨count, hcount, hcode, hall⟩ := ih (start + 1)
      refine ⟨count + 1, Nat.succ_le_succ hcount, ?_, ?_⟩
      · simp [transcriptElements, append_assoc, instructions_append he, hcode, storing, he,
          List.range'_succ]
      · intro hnone
        simp only [transcriptElements, error?_append, error?_put, he, Option.none_or] at hnone
        rw [hall hnone, List.length_cons]
    | some error =>
      refine ⟨1, by simp, ?_, ?_⟩
      · simp [transcriptElements, append_assoc, append_of_error?_eq_some he, storing, he]
      · intro hnone
        simp [transcriptElements, he] at hnone

/-- A literal that is not too deep pushes its length and the positions of its first elements. -/
theorem exists_instructions_newArray {limit depth : Nat} (hdepth : depth ≤ limit) (id : NodeId)
    (ty : Ty) (es : List Expr) :
    ∃ count ≤ es.length, ((newArray id ty es).transcript limit depth).instructions =
        filling ty es limit (depth + 1) (Int32.ofNat es.length)
          ((List.range count).map Int32.ofNat) ∧
      (((newArray id ty es).transcript limit depth).error? = none → count = es.length) := by
  obtain ⟨count, hcount, hcode, hall⟩ :=
    exists_instructions_transcriptElements limit es 0 (depth + 1)
  refine ⟨count, hcount, ?_, ?_⟩
  · rw [transcript]
    simp [append_assoc, instructions_append, hdepth, hcode, filling, List.range_eq_range']
  · intro hnone
    rw [transcript] at hnone
    simp only [error?_append, error?_put, Option.or_eq_none_iff] at hnone
    exact hall hnone.2

end Expr

/-- What a node hands over follows what was handed over before it was come to, and nothing follows
if lowering stops in it. -/
theorem Transcript.ComesTo.instructions_eq {t : Transcript} {limit : Nat} {o : Occurrence}
    {begun : List Instruction} (h : t.ComesTo limit o begun) :
    ∃ rest, t.instructions = begun ++ (o.node.transcript limit o.depth).instructions ++ rest ∧
      ((o.node.transcript limit o.depth).error? ≠ none → rest = []) := by
  obtain ⟨first, last, hfirst, rfl, rfl⟩ := h
  rw [append_assoc, instructions_append hfirst]
  cases hstop : (o.node.transcript limit o.depth).error? with
  | none =>
    refine ⟨last.instructions, ?_, by simp⟩
    rw [instructions_append hstop, List.append_assoc]
  | some error =>
    refine ⟨[], ?_, by simp⟩
    rw [append_of_error?_eq_some hstop, List.append_nil]

/-- The cast to 32 bits keeps exactly the admitted lengths. -/
theorem toInt_ofNat_eq_iff (n : Nat) :
    (Int32.ofNat n).toInt = n ↔ n ≤ Build.maxArrayLength := by
  constructor
  · intro h
    have hlt := (Int32.ofNat n).toInt_lt
    unfold Build.maxArrayLength
    omega
  · exact Machine.toInt_ofNat_position

/-- Apart from the element type, a literal is refused for its length only. -/
theorem Build.exists_newArray_eq_ok_iff {ty : Ty} (hty : ty.isVoid = false) (es : List Expr)
    (arena : Arena) :
    (∃ e after, Build.newArray ty es arena = .ok e after) ↔
      es.length ≤ Build.maxArrayLength := by
  have hvoid : ¬ ty.isVoid = true := by simp [hty]
  rw [Build.newArray, if_neg hvoid]
  by_cases hlong : es.length > Build.maxArrayLength
  · rw [if_pos hlong]
    constructor
    · rintro ⟨e, after, herror⟩
      cases herror
    · intro hshort
      omega
  · rw [if_neg hlong]
    exact ⟨fun _ => by omega, fun _ => ⟨_, _, rfl⟩⟩

/-- In a tree that constructions made, literals have admitted lengths. -/
theorem Expr.BuilderMade.length_le {e : Expr} (h : e.BuilderMade) {o : Occurrence}
    (ho : o ∈ e.occurrences) {id : NodeId} {ty : Ty} {es : List Expr}
    (hnode : o.node = .newArray id ty es) : es.length ≤ Build.maxArrayLength := by
  have hsound := h.every_sound o ho
  rw [hnode] at hsound
  exact hsound.2

/-- So the numbers that they announce are within the bound. -/
theorem Expr.BuilderMade.le_of_announced {e : Expr} (h : e.BuilderMade) {t : Transcript}
    {limit n : Nat} {before : List Instruction} (hn : t.Announced limit e.occurrences before n) :
    n ≤ Build.maxArrayLength := by
  obtain ⟨o, ho, id, ty, es, begun, given, hnode, -, -, hgiven⟩ := hn
  exact Nat.le_trans hgiven.le_length (h.length_le ho hnode)

/-- Positions count from zero, also after the cast. -/
theorem map_toInt_positions {count : Nat} (hcount : count ≤ Build.maxArrayLength) :
    ((List.range count).map Int32.ofNat).map Int32.toInt = (List.range count).map Int.ofNat := by
  rw [List.map_map]
  refine List.map_congr_left fun n hn => ?_
  have hlt := List.mem_range.mp hn
  exact Machine.toInt_ofNat_position (by omega)

/-- What a stream of instructions has of a literal that is begun after `begun`, with `rest` after
the literal. -/
structure Filled (stream begun : List Instruction) (limit : Nat) (o : Occurrence) (ty : Ty)
    (es : List Expr) (length : Int32) (positions : List Int32) (rest : List Instruction) :
    Prop where
  /-- The length is pushed first, and then each position before the element that belongs to it. -/
  stream_eq : stream = begun ++ Expr.filling ty es limit (o.depth + 1) length positions ++ rest
  length_eq : length.toInt = es.length
  /-- Positions count from zero. -/
  positions_eq : positions.map Int32.toInt = (List.range positions.length).map Int.ofNat
  below : ∀ p ∈ positions, p.toInt < length.toInt
  count_le : positions.length ≤ es.length
  /-- All elements have their positions if the literal goes through. -/
  count_eq : o.node.Lowers limit o.depth → positions.length = es.length
  /-- Otherwise lowering stops in the literal. -/
  stops : ¬ o.node.Lowers limit o.depth → rest = []

/-- A literal that is come to and not too deep pushes its length and its positions. -/
theorem Expr.BuilderMade.exists_filled {e : Expr} (h : e.BuilderMade) {limit : Nat}
    {o : Occurrence} (ho : o ∈ e.occurrences) {id : NodeId} {ty : Ty} {es : List Expr}
    {begun : List Instruction} (hnode : o.node = .newArray id ty es) (hdepth : o.depth ≤ limit)
    (hcomes : (e.transcript limit 0).ComesTo limit o begun) :
    ∃ length positions rest, Filled (e.stream limit) begun limit o ty es length positions rest := by
  have hshort := h.length_le ho hnode
  have hlength := Machine.toInt_ofNat_position hshort
  obtain ⟨rest, hstream, hrest⟩ := hcomes.instructions_eq
  obtain ⟨count, hcount, hcode, hall⟩ := exists_instructions_newArray hdepth id ty es
  have hpositions := map_toInt_positions (Nat.le_trans hcount hshort)
  refine ⟨Int32.ofNat es.length, (List.range count).map Int32.ofNat, rest, ?_, hlength,
    by simpa using hpositions, ?_, by simpa using hcount, ?_, hrest⟩
  · rw [e.stream_eq, hstream, hnode, hcode]
  · intro p hp
    obtain ⟨n, hn, rfl⟩ := List.mem_map.mp hp
    have hlt := List.mem_range.mp hn
    rw [hlength, Machine.toInt_ofNat_position (by omega)]
    omega
  · intro hlowers
    rw [Expr.Lowers, hnode] at hlowers
    simpa using hall hlowers

/-- The cast to 32 bits changes no number in the code of a tree that constructions made. Whatever
the sink, and whether lowering goes through or not, each number that is pushed is the length of the
literal that is begun, or the position of the element that comes next when all elements before it
are stored. A literal that is come to hands over its length and then its elements with their
positions, which count from zero and lie below the length. There are as many as the literal has
elements, unless lowering stops in one of them. The bound on the length of literals admits those
that the cast keeps, and no others. -/
theorem Expr.array_numbers_exact {σ : Type} {e : Expr} (hmade : e.BuilderMade) (limit : Nat)
    (sink : Sink σ) (start : σ) :
    (e.lowerInto sink start limit).sink = sink.feed start (e.stream limit) ∧
      (∀ before (v : Int32) after, e.stream limit = before ++ .pushInt v :: after →
        ∃ n : Nat, v.toInt = n ∧ (e.transcript limit 0).Announced limit e.occurrences before n) ∧
      (∀ o ∈ e.occurrences, ∀ id ty es begun, o.node = .newArray id ty es → o.depth ≤ limit →
        (e.transcript limit 0).ComesTo limit o begun →
        ∃ length positions rest,
          Filled (e.stream limit) begun limit o ty es length positions rest) ∧
      ∀ ty es arena, ty.isVoid = false →
        ((∃ x after, Build.newArray ty es arena = .ok x after) ↔
          (Int32.ofNat es.length).toInt = es.length) := by
  refine ⟨e.sink_lowerInto limit sink start, ?_, ?_, ?_⟩
  · intro before v after hsplit
    rw [stream_eq] at hsplit
    obtain ⟨n, rfl, hnone | hn⟩ := e.explained_transcript limit 0 before v after hsplit
    · exact hnone.elim
    · exact ⟨n, Machine.toInt_ofNat_position (hmade.le_of_announced hn), hn⟩
  · intro o ho id ty es begun hnode hdepth hcomes
    exact hmade.exists_filled ho hnode hdepth hcomes
  · intro ty es arena hty
    rw [Build.exists_newArray_eq_ok_iff hty, toInt_ofNat_eq_iff]

namespace Sample

/-- The literal `new int[] { xs[0] }`, which is refused. -/
def picked (name : String) : Expr := .newArray 8 .int [element name]

/-- A literal with two literals as elements, of which the second is refused. -/
def table (name : String) : Expr := .newArray 9 (.array .int) [literal, picked name]

/-- Constructions make the sample. -/
theorem builderMade_table (name : String) : (table name).BuilderMade := by
  have hpicked : (Arena.mk 0 ((nodes name).push (picked name))).Reachable :=
    (reachable name).build (.newArray .int [element name])
      (by simp [Construction.Admitted, Construction.parts, nodes])
  have htable : (Arena.mk 0 (((nodes name).push (picked name)).push (table name))).Reachable :=
    hpicked.build (.newArray (.array .int) [literal, picked name])
      (by simp [Construction.Admitted, Construction.parts, nodes])
  exact ⟨_, htable, by simp⟩

end Sample

/-- Lowering the sample stops in its second element. The numbers up to there are exact. -/
theorem Expr.array_numbers_exact_table :
    (Sample.table "xs").BuilderMade ∧
      (Sample.table "xs").stream 9 =
        [.pushInt 2, .newArray (.array .int), .dupArrayRef, .pushInt 0, .pushInt 1, .newArray .int,
          .dupArrayRef, .pushInt 0, .pushLiteral (.int 0), .storeArrayElement, .storeArrayElement,
          .dupArrayRef, .pushInt 1, .pushInt 1, .newArray .int, .dupArrayRef, .pushInt 0] ∧
      (∀ v, .pushInt v ∈ (Sample.table "xs").stream 9 → 0 ≤ v.toInt) ∧
      ∃ length positions, (Sample.table "xs").stream 9 =
          filling (.array .int) [Sample.literal, Sample.picked "xs"] 9 1 length positions ∧
        length.toInt = 2 ∧ ∀ p ∈ positions, p.toInt < 2 := by
  have hmade := Sample.builderMade_table "xs"
  obtain ⟨-, hnumbers, hliterals, -⟩ := array_numbers_exact hmade 9 Code.sink Code.empty
  refine ⟨hmade, rfl, fun v hv => ?_, ?_⟩
  · obtain ⟨before, after, hsplit⟩ := List.append_of_mem hv
    obtain ⟨n, hn, -⟩ := hnumbers before v after hsplit
    omega
  · have hstops : ¬ (Sample.table "xs").Lowers 9 0 := by
      unfold Lowers
      decide
    obtain ⟨length, positions, rest, hfilled⟩ :=
      hliterals ⟨Sample.table "xs", 0, false⟩ List.mem_cons_self 9 (.array .int)
        [Sample.literal, Sample.picked "xs"] [] rfl (Nat.zero_le 9) (comesTo_self 9 0 _ false)
    have hstream := hfilled.stream_eq
    have hbelow := hfilled.below
    rw [hfilled.stops hstops, List.append_nil] at hstream
    rw [hfilled.length_eq] at hbelow
    exact ⟨length, positions, hstream, hfilled.length_eq, hbelow⟩

end MethodBody
