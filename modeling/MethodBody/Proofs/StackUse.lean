import MethodBody.Proofs.Parts
import MethodBody.Proofs.Recorder
import MethodBody.Proofs.Regular

/-!
# The operand stack of generated code

A recorder follows the height of the operand stack one instruction at a time. For the code of an
expression whose operands have values the outcome can be told from the tree: no operand is ever
missing, the stack stays above where it started, it ends higher by one if the expression has a
value, and the greatest height on the way is given by `Expr.need`.
-/

namespace MethodBody

namespace Code

/-- All operands are there while some instructions are recorded, and the stack is never lower than
`floor` after any of them. -/
def Steady (floor : Nat) : Code → List Instruction → Prop
  | _, [] => True
  | code, i :: rest =>
    i.effect.pops ≤ code.depth ∧ floor ≤ (code.record i).depth ∧ Steady floor (code.record i) rest

/-- Instructions in turn are steady if each list is, from where the one before it leads. -/
theorem Steady.append {floor : Nat} {code : Code} {xs ys : List Instruction}
    (hxs : code.Steady floor xs) (hys : (Code.sink.feed code xs).Steady floor ys) :
    code.Steady floor (xs ++ ys) := by
  induction xs generalizing code with
  | nil => exact hys
  | cons i rest ih => exact ⟨hxs.1, hxs.2.1, ih hxs.2.2 hys⟩

/-- What does not go below a floor does not go below a lower one. -/
theorem Steady.mono {floor floor' : Nat} {code : Code} {xs : List Instruction}
    (h : code.Steady floor xs) (hle : floor' ≤ floor) : code.Steady floor' xs := by
  induction xs generalizing code with
  | nil => trivial
  | cons i rest ih => exact ⟨h.1, Nat.le_trans hle h.2.1, ih h.2.2⟩

/-- The stack is not lower than the floor after any first part of the instructions. -/
theorem Steady.le_depth_take {floor : Nat} {code : Code} {xs : List Instruction}
    (h : code.Steady floor xs) (hcode : floor ≤ code.depth) (n : Nat) :
    floor ≤ (Code.sink.feed code (xs.take n)).depth := by
  induction xs generalizing code n with
  | nil => simpa using hcode
  | cons i rest ih =>
    cases n with
    | zero => exact hcode
    | succ n => exact ih h.2.2 h.2.1 n

/-- A recorder that has all operands adds nothing to the events. -/
theorem Steady.reports_eq {floor : Nat} {code : Code} {acts : List Act}
    (h : code.Steady floor (acts.filterMap Transcript.instruction?)) :
    Transcript.reports Code.sink code acts = acts.filterMap Transcript.event? := by
  induction acts generalizing code with
  | nil => rfl
  | cons act rest ih =>
    cases act with
    | report event =>
      have hrest := ih h
      simp [Transcript.reports, Transcript.event?, hrest]
    | put i =>
      obtain ⟨hpops, -, hsteady⟩ := h
      have hquiet : (Code.sink.accept code i).2 = [] := by
        have hnot : ¬ code.depth < i.effect.pops := by omega
        simp [Code.sink, warning?, hnot]
      rw [Transcript.reports, hquiet, List.nil_append]
      exact ih hsteady

/-- Once something is recorded, the height of the stack counts among those seen. -/
theorem depth_le_maxStack_feed (code : Code) {xs : List Instruction} (hxs : xs ≠ []) :
    (Code.sink.feed code xs).depth ≤ (Code.sink.feed code xs).maxStack := by
  rw [← List.dropLast_append_getLast hxs, Sink.feed_append]
  exact Nat.le_max_right _ _

/-- Wherever some instructions are recorded, all operands are there and none of the stack below is
used, the stack ends higher by `rise`, and it needs room for `peak` values. The greatest height is
compared together with the present one, which an empty recording does not count. -/
def Lifts (xs : List Instruction) (rise peak : Nat) : Prop :=
  ∀ code : Code, code.Steady code.depth xs ∧
    (Code.sink.feed code xs).depth = code.depth + rise ∧
    max (Code.sink.feed code xs).maxStack (Code.sink.feed code xs).depth =
      max code.maxStack (code.depth + peak)

/-- No instructions leave the stack as it is. -/
theorem lifts_nil : Lifts [] 0 0 := fun _ => ⟨trivial, rfl, rfl⟩

/-- Equal instructions lift the stack by as much. -/
theorem Lifts.of_eq {xs ys : List Instruction} {rise rise' peak peak' : Nat}
    (h : Lifts xs rise peak) (hxs : xs = ys) (hrise : rise = rise') (hpeak : peak = peak') :
    Lifts ys rise' peak' := by
  rwa [← hxs, ← hrise, ← hpeak]

/-- What is left on the stack takes room. -/
theorem Lifts.rise_le {xs : List Instruction} {rise peak : Nat} (h : Lifts xs rise peak) :
    rise ≤ peak := by
  obtain ⟨-, hdepth, hmax⟩ := h Code.empty
  simp only [Code.empty] at hdepth hmax
  omega

/-- The second part runs on top of what the first one left. -/
theorem Lifts.append {xs ys : List Instruction} {rise rise' peak peak' : Nat}
    (hxs : Lifts xs rise peak) (hys : Lifts ys rise' peak') :
    Lifts (xs ++ ys) (rise + rise') (max peak (rise + peak')) := by
  intro code
  obtain ⟨hsteady, hdepth, hmax⟩ := hxs code
  obtain ⟨hsteady', hdepth', hmax'⟩ := hys (Code.sink.feed code xs)
  refine ⟨hsteady.append (hsteady'.mono (by omega)), ?_, ?_⟩
  · rw [Sink.feed_append, hdepth', hdepth]
    omega
  · rw [Sink.feed_append]
    omega

/-- An instruction uses what is on top and leaves its result. -/
theorem Lifts.snoc {xs : List Instruction} {peak : Nat} (i : Instruction) (rest : Nat)
    (hxs : Lifts xs (rest + i.effect.pops) peak) (hreturn : i.isReturn = false) :
    Lifts (xs ++ [i]) (rest + i.effect.pushes) (max peak (rest + i.effect.pushes)) := by
  intro code
  obtain ⟨hsteady, hdepth, hmax⟩ := hxs code
  have hrecord : (Code.sink.feed code (xs ++ [i])) = (Code.sink.feed code xs).record i := by
    rw [Sink.feed_append]
    rfl
  have hdepth' := depth_record (Code.sink.feed code xs) hreturn
  have hmax' := maxStack_record (Code.sink.feed code xs) i
  -- The height before the instruction was seen, or it is the height that the recording began with.
  have hseen : (Code.sink.feed code xs).depth ≤
      max (Code.sink.feed code xs).maxStack ((Code.sink.feed code xs).record i).depth := by
    by_cases hempty : xs = []
    · subst hempty
      rw [Sink.feed_nil] at hdepth hdepth' ⊢
      omega
    · have := depth_le_maxStack_feed code hempty
      omega
  refine ⟨hsteady.append ⟨by omega, by omega, trivial⟩, ?_, ?_⟩
  · rw [hrecord]
    omega
  · rw [hrecord]
    omega

end Code

namespace Expr

/-- How many values an expression leaves on the stack. -/
def yield (e : Expr) : Nat := if e.hasValue then 1 else 0

mutual

/-- How many places an expression needs on the operand stack. An operand runs on top of the operands
before it, and an element on top of the array, a second reference to it and the position. -/
def need : Expr → Nat
  | .constant .. => 1
  | .parameter .. => 1
  | .member _ target _ => target.need
  | .assign _ (.member _ target _) right => max target.need (1 + right.need)
  | .assign _ (.arrayIndex _ array index) right =>
    max array.need (max (1 + index.need) (2 + right.need))
  | .assign _ (.parameter ..) right => right.need
  | .call _ none sig args => max (Instruction.resultSize sig) (needArgs 0 args)
  | .call _ (some receiver) sig args =>
    max (Instruction.resultSize sig) (max receiver.need (needArgs 1 args))
  | .newArray _ _ elements => max 1 (needElements elements)
  | .assign .. => 0
  | .block .. => 0
  | .arrayIndex .. => 0

/-- How many places arguments need of which the first runs on top of `held` values. -/
def needArgs (held : Nat) : List Expr → Nat
  | [] => 0
  | e :: rest => max (held + e.need) (needArgs (held + 1) rest)

/-- How many places the elements of an array literal need. -/
def needElements : List Expr → Nat
  | [] => 0
  | e :: rest => max (3 + e.need) (needElements rest)

end

/-- Arguments need as many places more as there are values more below them, if there are any. -/
theorem max_needArgs (held extra : Nat) (args : List Expr) :
    max extra (extra + needArgs held args) = max extra (needArgs (held + extra) args) := by
  induction args generalizing held with
  | nil => simp [needArgs]
  | cons a rest ih =>
    have hrest := ih (held + 1)
    rw [Nat.add_right_comm] at hrest
    simp only [needArgs]
    omega

open Code (Lifts)

/-- What has a value leaves one place filled. -/
theorem lifts_one {e : Expr} (h : Lifts e.code e.yield e.need) (hvalue : e.hasValue = true) :
    Lifts e.code 1 e.need := by
  have hone : e.yield = 1 := by simp [yield, hvalue]
  rwa [hone] at h

/-- Arguments raise the stack by one each. -/
theorem lifts_codeAll {args : List Expr} (hargs : ∀ a ∈ args, Lifts a.code a.yield a.need)
    (hvalues : ∀ a ∈ args, a.hasValue = true) :
    Lifts (codeAll args) args.length (needArgs 0 args) := by
  induction args with
  | nil => exact Code.lifts_nil
  | cons a rest ih =>
    have ha := lifts_one (hargs a (by simp)) (hvalues a (by simp))
    have hle := ha.rise_le
    have hrest := ih (fun x hx => hargs x (by simp [hx])) fun x hx => hvalues x (by simp [hx])
    have hmax := max_needArgs 0 1 rest
    refine (ha.append hrest).of_eq (by rw [codeAll]) (by rw [List.length_cons]; omega) ?_
    rw [needArgs]
    omega

/-- Elements leave the stack as it was, with the array on top. -/
theorem lifts_codeElements {es : List Expr} (hes : ∀ x ∈ es, Lifts x.code x.yield x.need)
    (hvalues : ∀ x ∈ es, x.hasValue = true) (position : Nat) :
    Lifts (codeElements position es) 0 (needElements es - 1) := by
  induction es generalizing position with
  | nil => exact Code.lifts_nil
  | cons x rest ih =>
    have hx := lifts_one (hes x (by simp)) (hvalues x (by simp))
    have hrest := ih (fun y hy => hes y (by simp [hy])) (fun y hy => hvalues y (by simp [hy]))
      (position + 1)
    have hdup : Lifts [.dupArrayRef] 1 1 := Code.lifts_nil.snoc .dupArrayRef 0 rfl
    have hposition : Lifts [.dupArrayRef, .pushInt (Int32.ofNat position)] 2 2 :=
      hdup.snoc (.pushInt (Int32.ofNat position)) 1 rfl
    have hstore := (hposition.append hx).snoc .storeArrayElement 0 rfl
    refine (hstore.append hrest).of_eq ?_ rfl ?_
    · simp [codeElements]
    · simp only [needElements, Instruction.effect]
      omega

/-- The code of a regular expression leaves its value and needs the places that the tree says, if
all operands have values. -/
theorem lifts_code {e : Expr} (h : e.Regular fun x => x.hasValue = true) :
    Lifts e.code e.yield e.need := by
  induction h with
  | constant => exact Code.lifts_nil.snoc (.pushLiteral _) 0 rfl
  | parameter => exact Code.lifts_nil.snoc (.loadLocal _) 0 rfl
  | @member id target field _ hQ ih =>
    have htarget := lifts_one ih hQ
    have hle := htarget.rise_le
    refine (htarget.snoc (.getField field) 0 rfl).of_eq (by rw [code]) rfl ?_
    simp only [need, Instruction.effect]
    omega
  | @assignMember id leftId target right field _ _ hQ hQ' iht ihr =>
    have hboth := (lifts_one iht hQ).append (lifts_one ihr hQ')
    refine (hboth.snoc (.putField field) 0 rfl).of_eq (by rw [code]) rfl ?_
    simp only [need, Instruction.effect]
    omega
  | @assignElement id leftId array index right _ _ _ hQ hQ' hQ'' iha ihi ihr =>
    have hplace := (lifts_one iha hQ).append (lifts_one ihi hQ')
    have hall := hplace.append (lifts_one ihr hQ'')
    refine (hall.snoc .storeArrayElement 0 rfl).of_eq (by rw [code]) rfl ?_
    simp only [need, Instruction.effect]
    omega
  | @assignLocal id leftId var right _ hQ ih =>
    have hright := lifts_one ih hQ
    refine (hright.snoc (.storeLocal var.slot) 0 rfl).of_eq (by rw [code]) rfl ?_
    simp only [need, Instruction.effect]
    omega
  | @callStatic id sig args _ hQ harity ih =>
    have hargs := lifts_codeAll ih hQ
    rw [harity, ← Nat.zero_add sig.params.length] at hargs
    refine (hargs.snoc (.invokeStatic sig) 0 rfl).of_eq (by rw [code]) (Nat.zero_add _) ?_
    simp only [need, Instruction.effect]
    omega
  | @callVirtual id receiver sig args _ _ hQ hQ' harity ihr ih =>
    have hreceiver := lifts_one ihr hQ
    have hle := hreceiver.rise_le
    have hmax := max_needArgs 0 1 args
    rw [Nat.zero_add] at hmax
    have hall := (hreceiver.append (lifts_codeAll ih hQ')).of_eq rfl
      (show 1 + args.length = 0 + (sig.params.length + 1) by omega) rfl
    refine (hall.snoc (.invokeVirtual sig) 0 rfl).of_eq (by rw [code]) (Nat.zero_add _) ?_
    simp only [need, Instruction.effect]
    omega
  | @newArray id element elements _ hQ hlength ih =>
    have hpush : Lifts [.pushInt (Int32.ofNat elements.length)] 1 1 :=
      Code.lifts_nil.snoc (.pushInt (Int32.ofNat elements.length)) 0 rfl
    have harray := hpush.snoc (.newArray element) 0 rfl
    refine (harray.append (lifts_codeElements ih hQ 0)).of_eq (by rw [code]; rfl) rfl ?_
    simp only [need, Instruction.effect]
    omega

/-- An expression without blocks, made by constructions and with values for all operands, uses the
operand stack as the tree says. Whatever was recorded before, no operand is found missing, the stack
is never lower than at the beginning, and in the end it is higher by the value of the expression and
has had room for `need` more places. -/
theorem lowerInto_stack_discipline (e : Expr) (limit : Nat) (code : Code) (hmade : e.BuilderMade)
    (hblocks : e.Every NotBlock) (hvalued : e.Every OperandsValued)
    (hok : (e.lowerInto Code.sink code limit).error? = none) :
    let out := e.lowerInto Code.sink code limit
    let recorded := out.sink.since code.length
    (∀ event ∈ out.events, event.message ≠ "Operand stack underflow") ∧
      out.sink = Code.sink.feed code recorded ∧
      (∀ n, code.depth ≤ (Code.sink.feed code (recorded.take n)).depth) ∧
      out.sink.depth = code.depth + e.yield ∧
      out.sink.maxStack = max code.maxStack (code.depth + e.need) := by
  rw [lowerInto_eq] at hok ⊢
  have hlowers : e.Lowers limit 0 := hok
  have hregular := hlowers.regular ((hmade.every_sound.and hblocks).and hvalued)
  obtain ⟨hsteady, hdepth, hmax⟩ := lifts_code hregular code
  have hseen := Code.depth_le_maxStack_feed code hregular.code_ne_nil
  simp only [hlowers.instructions_eq, Code.since_feed, true_and]
  refine ⟨?_, hsteady.le_depth_take (Nat.le_refl _), hdepth, by omega⟩
  intro event hevent
  rw [← hlowers.instructions_eq] at hsteady
  rw [List.mem_toArray, hsteady.reports_eq] at hevent
  exact Event.message_ne_underflow (own_transcript e limit 0 event hevent)

/-- The sample statement after two values were pushed. -/
theorem lowerInto_stack_discipline_store :
    let e := Sample.store "xs"
    let code : Code := ⟨#[.loadLocal 3, .loadLocal 4], 5, 2, 2⟩
    let out := e.lowerInto Code.sink code 3
    e.BuilderMade ∧ e.Every NotBlock ∧ e.Every OperandsValued ∧ out.error? = none ∧
      (∀ event ∈ out.events, event.message ≠ "Operand stack underflow") ∧
      (∀ n, 2 ≤ (Code.sink.feed code ((out.sink.since 2).take n)).depth) ∧
      out.sink.depth = 2 ∧ out.sink.maxStack = 9 := by
  have hok : ((Sample.store "xs").lowerInto Code.sink
      ⟨#[.loadLocal 3, .loadLocal 4], 5, 2, 2⟩ 3).error? = none := by decide
  obtain ⟨hquiet, -, hfloor, hdepth, hmax⟩ := lowerInto_stack_discipline (Sample.store "xs") 3
    ⟨#[.loadLocal 3, .loadLocal 4], 5, 2, 2⟩ (Sample.builderMade_store "xs")
    (Sample.every_notBlock_store "xs") (Sample.every_operandsValued_store "xs") hok
  exact ⟨Sample.builderMade_store "xs", Sample.every_notBlock_store "xs",
    Sample.every_operandsValued_store "xs", hok, hquiet, hfloor, hdepth, hmax⟩

end Expr

end MethodBody
