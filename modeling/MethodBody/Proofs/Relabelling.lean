import MethodBody.Proofs.Representation
import MethodBody.Proofs.Stream

/-!
# New constants and variables

A transformer that puts a new constant in the place of every constant and a new variable in the
place of every variable, and goes through all other nodes, commutes with lowering: the code of the
outcome is the code of the expression with new operands in the instructions that push literals and
that load or store variables. An expression that has no code fails in the same way before and after,
and hands over the same instructions until then.
-/

namespace MethodBody

variable (f : Literal → Literal) (r : UInt16 → UInt16)

/-- The instruction with a new literal or a new slot, if it has one. -/
def Instruction.relabel : Instruction → Instruction
  | .pushLiteral value => .pushLiteral (f value)
  | .loadLocal slot => .loadLocal (r slot)
  | .storeLocal slot => .storeLocal (r slot)
  | i => i

namespace Transcript

/-- What an act does with new labels. Reports have none. -/
def relabelAct : Act → Act
  | .report event => .report event
  | .put i => .put (i.relabel f r)

/-- The transcript with new labels. -/
def relabel (t : Transcript) : Transcript := ⟨t.acts.map (relabelAct f r), t.error?⟩

/-- Relabelling does not touch the error. -/
@[simp] theorem error?_relabel (t : Transcript) : (t.relabel f r).error? = t.error? := rfl

/-- There is nothing to relabel where nothing is done. -/
@[simp] theorem relabel_done : done.relabel f r = done := rfl

/-- Events have no labels. -/
@[simp] theorem relabel_report (event : Event) : (report event).relabel f r = report event := rfl

/-- An instruction that is handed over is relabelled. -/
@[simp] theorem relabel_put (i : Instruction) : (put i).relabel f r = put (i.relabel f r) := rfl

/-- Errors have no labels. -/
@[simp] theorem relabel_stop (error : LowerError) : (stop error).relabel f r = stop error := rfl

/-- Transcripts in turn are relabelled each. -/
@[simp] theorem relabel_append (a b : Transcript) :
    (a ++ b).relabel f r = a.relabel f r ++ b.relabel f r := by
  cases ha : a.error? with
  | none =>
    have ha' : (a.relabel f r).error? = none := ha
    rw [append_of_error?_eq_none ha, append_of_error?_eq_none ha']
    simp [relabel]
  | some error =>
    have ha' : (a.relabel f r).error? = some error := ha
    rw [append_of_error?_eq_some ha, append_of_error?_eq_some ha']

/-- Coming to a node has no labels. -/
@[simp] theorem relabel_enter (limit : Nat) (kind : Kind) (depth : Nat) :
    (enter limit kind depth).relabel f r = enter limit kind depth := by
  unfold enter
  split <;> simp

/-- Only the number of variables is reported, and relabelling keeps it. -/
@[simp] theorem relabel_reportLocals (locals : List Variable) :
    (reportLocals locals).relabel f r = reportLocals locals := by
  unfold reportLocals
  split <;> simp

/-- The instructions of a relabelled transcript are relabelled. -/
theorem instructions_relabel (t : Transcript) :
    (t.relabel f r).instructions = t.instructions.map (Instruction.relabel f r) := by
  unfold instructions relabel
  rw [List.filterMap_map, List.map_filterMap]
  congr 1
  funext act
  cases act <;> rfl

end Transcript

namespace Expr

/-- Lowering treats the second expression as it treats the first, but for the labels. -/
def Mirrors (x x' : Expr) : Prop :=
  ∀ limit depth, x'.transcript limit depth = (x.transcript limit depth).relabel f r

/-- Lowering treats the second expression as it treats the first wherever they stand. The left side
of an assignment is not lowered by itself, so that place is asked for apart. -/
structure Alike (x x' : Expr) : Prop where
  mirrors : Mirrors f r x x'
  asTarget : ∀ id id' right right', Mirrors f r right right' →
    Mirrors f r (.assign id x right) (.assign id' x' right')

variable {f r}

/-- What cannot be assigned to is refused by its kind alone. -/
theorem Mirrors.alike {x x' : Expr} (h : Mirrors f r x x') (hx : x.isAssignable = false)
    (hkind : x'.kind = x.kind) : Alike f r x x' := by
  refine ⟨h, fun id id' right right' _ limit depth => ?_⟩
  have hx' : x'.isAssignable = false := by rwa [isAssignable, hkind]
  rw [transcript_assign_of_not_assignable hx, transcript_assign_of_not_assignable hx', hkind]
  simp

/-- Operands that are alike are lowered alike. -/
theorem mirrors_transcriptAll {xs xs' : List Expr} (h : List.Forall₂ (Alike f r) xs xs')
    (limit depth : Nat) :
    transcriptAll limit xs' depth = (transcriptAll limit xs depth).relabel f r := by
  induction h with
  | nil => rfl
  | cons hx _ ih => rw [transcriptAll, transcriptAll, hx.mirrors, ih, Transcript.relabel_append]

/-- Elements that are alike are stored alike. -/
theorem mirrors_transcriptElements {xs xs' : List Expr} (h : List.Forall₂ (Alike f r) xs xs')
    (limit position depth : Nat) :
    transcriptElements limit xs' position depth =
      (transcriptElements limit xs position depth).relabel f r := by
  induction h generalizing position with
  | nil => rfl
  | cons hx _ ih =>
    rw [transcriptElements, transcriptElements, hx.mirrors, ih]
    simp [Instruction.relabel]

section Forms

variable {id id' : NodeId}

/-- Constants with corresponding values are alike. -/
theorem alike_constant (value : Literal) :
    Alike f r (.constant id value) (.constant id' (f value)) := by
  have hmirrors : Mirrors f r (.constant id value) (.constant id' (f value)) := by
    intro limit depth
    simp [transcript, Instruction.relabel]
  exact hmirrors.alike rfl rfl

/-- A variable is read or, as a target, stored into. -/
theorem alike_parameter {var var' : Variable} (hslot : var'.slot = r var.slot) :
    Alike f r (.parameter id var) (.parameter id' var') := by
  constructor
  · intro limit depth
    simp [transcript, Instruction.relabel, hslot]
  · intro id id' right right' hright limit depth
    simp [transcript, Instruction.relabel, hslot, hright limit (depth + 1)]

/-- Accesses to one field are alike if their targets are. -/
theorem alike_member {target target' : Expr} (field : Field) (h : Alike f r target target') :
    Alike f r (.member id target field) (.member id' target' field) := by
  constructor
  · intro limit depth
    simp [transcript, Instruction.relabel, h.mirrors limit (depth + 1)]
  · intro id id' right right' hright limit depth
    simp [transcript, Instruction.relabel, h.mirrors limit (depth + 2), hright limit (depth + 1)]

/-- An element is refused or, as a target, stored into. -/
theorem alike_arrayIndex {array array' index index' : Expr} (harray : Alike f r array array')
    (hindex : Alike f r index index') :
    Alike f r (.arrayIndex id array index) (.arrayIndex id' array' index') := by
  constructor
  · intro limit depth
    simp [transcript]
  · intro id id' right right' hright limit depth
    simp [transcript, Instruction.relabel, harray.mirrors limit (depth + 2),
      hindex.mirrors limit (depth + 2), hright limit (depth + 1)]

/-- Assignments are alike if their sides are. -/
theorem alike_assign {left left' right right' : Expr} (hleft : Alike f r left left')
    (hright : Alike f r right right') :
    Alike f r (.assign id left right) (.assign id' left' right') :=
  Mirrors.alike (hleft.asTarget id id' right right' hright.mirrors) rfl rfl

/-- Calls without a receiver are alike if their arguments are. -/
theorem alike_callStatic (sig : Signature) {args args' : List Expr}
    (hargs : List.Forall₂ (Alike f r) args args') :
    Alike f r (.call id none sig args) (.call id' none sig args') := by
  have hmirrors : Mirrors f r (.call id none sig args) (.call id' none sig args') := by
    intro limit depth
    simp [transcript, Instruction.relabel, mirrors_transcriptAll hargs]
  exact hmirrors.alike rfl rfl

/-- Calls are alike if their receivers and their arguments are. -/
theorem alike_callVirtual {receiver receiver' : Expr} (sig : Signature) {args args' : List Expr}
    (hreceiver : Alike f r receiver receiver') (hargs : List.Forall₂ (Alike f r) args args') :
    Alike f r (.call id (some receiver) sig args) (.call id' (some receiver') sig args') := by
  have hmirrors : Mirrors f r (.call id (some receiver) sig args)
      (.call id' (some receiver') sig args') := by
    intro limit depth
    simp [transcript, Instruction.relabel, hreceiver.mirrors limit (depth + 1),
      mirrors_transcriptAll hargs]
  exact hmirrors.alike rfl rfl

/-- Array literals are alike if their elements are. -/
theorem alike_newArray (element : Ty) {elements elements' : List Expr}
    (helements : List.Forall₂ (Alike f r) elements elements') :
    Alike f r (.newArray id element elements) (.newArray id' element elements') := by
  have hmirrors :
      Mirrors f r (.newArray id element elements) (.newArray id' element elements') := by
    intro limit depth
    simp [transcript, Instruction.relabel, mirrors_transcriptElements helements,
      helements.length_eq]
  exact hmirrors.alike rfl rfl

/-- Blocks are alike if their statements and their results are. -/
theorem alike_block (ty : Ty) (locals : List Variable) {statements statements' : List Expr}
    {result result' : Expr} (hstatements : List.Forall₂ (Alike f r) statements statements')
    (hresult : Alike f r result result') :
    Alike f r (.block id ty locals statements result)
      (.block id' ty locals statements' result') := by
  have hmirrors : Mirrors f r (.block id ty locals statements result)
      (.block id' ty locals statements' result') := by
    intro limit depth
    have hreturn : (if ty.isVoid then Instruction.returnVoid else .returnValue).relabel f r =
        if ty.isVoid then .returnVoid else .returnValue := by
      split <;> rfl
    simp [transcript, hreturn, hresult.mirrors limit (depth + 1), mirrors_transcriptAll hstatements]
  exact hmirrors.alike rfl rfl

end Forms

/-- What corresponds to a list with a last element has a corresponding last element. -/
theorem forall₂_append_singleton {R : Expr → Expr → Prop} {xs ys : List Expr} {x : Expr}
    (h : List.Forall₂ R (xs ++ [x]) ys) :
    ∃ ys' y, ys = ys' ++ [y] ∧ List.Forall₂ R xs ys' ∧ R x y := by
  induction xs generalizing ys with
  | nil =>
    obtain ⟨y, rest, hy, hrest, rfl⟩ := List.forall₂_cons_left_iff.mp h
    obtain rfl := List.forall₂_nil_left_iff.mp hrest
    exact ⟨[], y, rfl, .nil, hy⟩
  | cons z zs ih =>
    obtain ⟨y, rest, hy, hrest, rfl⟩ := List.forall₂_cons_left_iff.mp h
    obtain ⟨ys', last, rfl, hys', hlast⟩ := ih hrest
    exact ⟨y :: ys', last, rfl, .cons hy hys', hlast⟩

/-- A node that is neither a constant nor a variable takes over from its children that lowering
treats it alike. -/
theorem alike_renew {e : Expr} {cs : List Expr} (hconstant : e.kind ≠ .constant)
    (hparameter : e.kind ≠ .parameter) (hcs : List.Forall₂ (Alike f r) e.children cs)
    (id : NodeId) : Alike f r e (e.renew id cs) := by
  cases e with
  | constant => exact absurd rfl hconstant
  | parameter => exact absurd rfl hparameter
  | member id target field =>
    cases hcs with
    | cons htarget hrest =>
      cases hrest
      exact alike_member field htarget
  | assign id left right =>
    cases hcs with
    | cons hleft hrest =>
      cases hrest with
      | cons hright hrest =>
        cases hrest
        exact alike_assign hleft hright
  | arrayIndex id array index =>
    cases hcs with
    | cons harray hrest =>
      cases hrest with
      | cons hindex hrest =>
        cases hrest
        exact alike_arrayIndex harray hindex
  | newArray id element elements => exact alike_newArray element hcs
  | block id ty locals statements result =>
    obtain ⟨statements', result', rfl, hstatements, hresult⟩ := forall₂_append_singleton hcs
    simpa [renew, List.getLastD_eq_getLast?] using alike_block ty locals hstatements hresult
  | call id receiver sig args =>
    cases receiver with
    | none => exact alike_callStatic sig hcs
    | some receiver =>
      cases hcs with
      | cons hreceiver hargs => exact alike_callVirtual sig hreceiver hargs

end Expr

/-- The verdicts of a transformer that gives new labels. A constant gives way to a constant with the
new literal and a variable to one in the new slot, whether it is the same node, another one or a new
one. All other nodes are gone through. -/
def Verdict.Relabels (f : Literal → Literal) (r : UInt16 → UInt16) : Expr → Verdict → Prop
  | .constant _ value, verdict => ∃ id, verdict = .settle (.constant id (f value))
  | .parameter _ var, verdict =>
    ∃ id var', verdict = .settle (.parameter id var') ∧ var'.slot = r var.slot
  | _, verdict => verdict = .descend

/-- Verdicts that give new labels lead to expressions that lowering treats alike. -/
theorem Verdict.Relabels.leads {f : Literal → Literal} {r : UInt16 → UInt16} {e : Expr}
    {verdict : Verdict} (h : Relabels f r e verdict) : verdict.Leads (Expr.Alike f r) e := by
  cases e with
  | constant id value =>
    obtain ⟨id', rfl⟩ := h
    exact Expr.alike_constant value
  | parameter id var =>
    obtain ⟨id', var', rfl, hslot⟩ := h
    exact Expr.alike_parameter hslot
  | member | assign | call | block | arrayIndex | newArray =>
    obtain rfl : verdict = .descend := h
    exact fun id cs hcs => Expr.alike_renew (by simp [Expr.kind]) (by simp [Expr.kind]) hcs id

/-- The transformer never fails and gives new labels. -/
def Transformer.RelabelsLeaves {ε σ : Type} (t : Transformer ε σ) (f : Literal → Literal)
    (r : UInt16 → UInt16) (knows : Workspace σ → Prop) : Prop :=
  ∀ e w, w.arena.Reachable → knows w → e ∈ w.arena.nodes →
    ∃ verdict w', t.judge e w = .ok verdict w' ∧ verdict.Relabels f r e

section Frame

variable (f : Literal → Literal) (r : UInt16 → UInt16)

/-- Relabelling keeps the effect on the stack. -/
theorem Instruction.effect_relabel (i : Instruction) : (i.relabel f r).effect = i.effect := by
  cases i <;> rfl

/-- Relabelling keeps returns. -/
theorem Instruction.isReturn_relabel (i : Instruction) : (i.relabel f r).isReturn = i.isReturn := by
  cases i <;> rfl

/-- New labels do not change how high the operand stack is and was. -/
theorem Code.feed_relabel {code code' : Code} (hdepth : code'.depth = code.depth)
    (hmax : code'.maxStack = code.maxStack) (xs : List Instruction) :
    (Code.sink.feed code' (xs.map (Instruction.relabel f r))).depth =
        (Code.sink.feed code xs).depth ∧
      (Code.sink.feed code' (xs.map (Instruction.relabel f r))).maxStack =
        (Code.sink.feed code xs).maxStack := by
  induction xs generalizing code code' with
  | nil => exact ⟨hdepth, hmax⟩
  | cons i rest ih =>
    have hrecord : (code'.record (i.relabel f r)).depth = (code.record i).depth := by
      simp only [record, i.effect_relabel, i.isReturn_relabel, hdepth]
    have hrecord' : (code'.record (i.relabel f r)).maxStack = (code.record i).maxStack := by
      simp only [record, i.effect_relabel, i.isReturn_relabel, hdepth, hmax]
    exact ih hrecord hrecord'

end Frame

namespace Transformer

variable {ε σ : Type} {f : Literal → Literal} {r : UInt16 → UInt16} {knows : Workspace σ → Prop}

/-- A transformer that gives new labels turns an expression into one that lowering treats alike. -/
theorem RelabelsLeaves.apply_alike {t : Transformer ε σ} (ht : t.Honest knows)
    (hleaves : t.RelabelsLeaves f r knows) (e : Expr) (w : Workspace σ)
    (hreach : w.arena.Reachable) (hknows : knows w) (he : e ∈ w.arena.nodes) :
    ∃ e' w', t.apply e w = .ok e' w' ∧ w.arena.Grows w'.arena ∧ e' ∈ w'.arena.nodes ∧
      Expr.Alike f r e e' := by
  have hdelivers : Delivers knows (Expr.Alike f r) (fun _ => False) w e (t.apply e) := by
    refine ht.apply_delivers ht.grows (fun x w hw hk hx => ?_) e w hreach hknows he
    obtain ⟨verdict, w', hok, hrelabels⟩ := hleaves x w hw hk hx
    simp only [Transform.Ends, hok]
    exact hrelabels.leads
  obtain ⟨hdone, hfailed⟩ := Transform.ends_iff.mp hdelivers
  cases happly : t.apply e w with
  | ok e' w' =>
    obtain ⟨hgrows, -, hmem, halike⟩ := hdone e' w' happly
    exact ⟨e', w', rfl, hgrows, hmem, halike⟩
  | error error w' => exact (hfailed error w' happly).2.elim

/-- Giving new labels commutes with lowering. For every honest transformer that gives new literals
and new slots and for every expression made by constructions, the transformation succeeds. Into
every sink and under every limit its outcome is lowered with the same error or with none, and the
sink is given the instructions of the expression with the new labels, also where lowering is
stopped. The operand stack of a recorder is as high as before and needs as many places. -/
theorem lowerInto_apply_relabels (t : Transformer ε σ) (f : Literal → Literal)
    (r : UInt16 → UInt16) (knows : Workspace σ → Prop) (ht : t.Honest knows)
    (hleaves : t.RelabelsLeaves f r knows) (e : Expr) (w : Workspace σ)
    (hreach : w.arena.Reachable) (hknows : knows w) (he : e ∈ w.arena.nodes) :
    ∃ e' w', t.apply e w = .ok e' w' ∧ w'.arena.Reachable ∧ e' ∈ w'.arena.nodes ∧
      (∀ (τ : Type) (sink : Sink τ) (start : τ) (limit : Nat),
        (e'.lowerInto sink start limit).error? = (e.lowerInto sink start limit).error? ∧
        (e'.lowerInto sink start limit).sink =
          sink.feed start ((e.stream limit).map (Instruction.relabel f r))) ∧
      ∀ (code : Code) (limit : Nat),
        (e'.lowerInto Code.sink code limit).sink.depth =
            (e.lowerInto Code.sink code limit).sink.depth ∧
          (e'.lowerInto Code.sink code limit).sink.maxStack =
            (e.lowerInto Code.sink code limit).sink.maxStack := by
  obtain ⟨e', w', happly, hgrows, hmem, halike⟩ := hleaves.apply_alike ht e w hreach hknows he
  have hstream (limit : Nat) :
      e'.stream limit = (e.stream limit).map (Instruction.relabel f r) := by
    rw [e'.stream_eq, e.stream_eq, halike.mirrors, Transcript.instructions_relabel]
  refine ⟨e', w', happly, hreach.grows hgrows, hmem, fun τ sink start limit => ⟨?_, ?_⟩,
    fun code limit => ?_⟩
  · rw [Expr.lowerInto_eq, Expr.lowerInto_eq]
    change (e'.transcript limit 0).error? = (e.transcript limit 0).error?
    rw [halike.mirrors, Transcript.error?_relabel]
  · rw [e'.sink_lowerInto, hstream]
  · rw [e'.sink_lowerInto, e.sink_lowerInto, hstream]
    exact Code.feed_relabel f r rfl rfl (e.stream limit)

/-- The transformer that gives new labels and makes a new node only where the label differs. A
variable without a type can only be the object that the method runs on, so one that moves is given a
type. -/
def relabelling (f : Literal → Literal) (r : UInt16 → UInt16) : Transformer ε σ where
  judge e :=
    match e with
    | .constant _ value =>
      Verdict.settle <$>
        if f value = value then pure e else Transform.build (Build.constant (f value))
    | .parameter _ var =>
      Verdict.settle <$>
        if r var.slot = var.slot then pure e
        else Transform.build (Build.parameter (r var.slot) var.name
          (var.ty.getD (.reference "java/lang/Object")))
    | _ => pure .descend

/-- The verdict on a node of the arena relabels it, and never fails. -/
theorem relabelling_judge (f : Literal → Literal) (r : UInt16 → UInt16) {e : Expr} {w : Workspace σ}
    (he : e ∈ w.arena.nodes) :
    ∃ verdict w', (relabelling f r : Transformer ε σ).judge e w = .ok verdict w' ∧
      verdict.Relabels f r e ∧ w.arena.Run w'.arena ∧ verdict.Within w'.arena := by
  cases e with
  | constant id value =>
    simp only [relabelling]
    by_cases hvalue : f value = value
    · rw [if_pos hvalue]
      exact ⟨_, _, rfl, ⟨id, by rw [hvalue]⟩, .done _, he⟩
    · rw [if_neg hvalue]
      refine ⟨_, _, rfl, ⟨_, rfl⟩, .build (.constant (f value)) (.done _) ?_, ?_⟩
      · simp [Construction.Admitted, Construction.parts]
      · exact Array.mem_push_self
  | parameter id var =>
    simp only [relabelling]
    by_cases hslot : r var.slot = var.slot
    · rw [if_pos hslot]
      exact ⟨_, _, rfl, ⟨id, var, rfl, hslot.symm⟩, .done _, he⟩
    · rw [if_neg hslot]
      refine ⟨_, _, rfl, ⟨_, _, rfl, rfl⟩, .build (.parameter _ _ _) (.done _) ?_, ?_⟩
      · simp [Construction.Admitted, Construction.parts]
      · exact Array.mem_push_self
  | member | assign | call | block | arrayIndex | newArray =>
    exact ⟨.descend, w, rfl, rfl, .done _, trivial⟩

/-- So this transformer relabels the leaves that it comes to. -/
theorem relabelling_relabelsLeaves (f : Literal → Literal) (r : UInt16 → UInt16) :
    (relabelling f r : Transformer ε σ).RelabelsLeaves f r fun _ => True := by
  intro e w _ _ he
  obtain ⟨verdict, w', hok, hrelabels, -⟩ := relabelling_judge (ε := ε) f r he
  exact ⟨verdict, w', hok, hrelabels⟩

/-- It touches the arena by constructions only. -/
theorem relabelling_honest (f : Literal → Literal) (r : UInt16 → UInt16) :
    (relabelling f r : Transformer ε σ).Honest fun _ => True := by
  refine ⟨⟨fun _ _ _ _ => trivial, fun e w verdict w' _ _ he hok => ?_⟩, fun e w _ _ he => ?_⟩
  · obtain ⟨verdict', w'', hok', -, -, hwithin⟩ := relabelling_judge (ε := ε) f r he
    rw [hok] at hok'
    obtain ⟨rfl, rfl⟩ := EStateM.Result.ok.inj hok'
    exact ⟨trivial, hwithin⟩
  · obtain ⟨verdict, w', hok, -, hrun, -⟩ := relabelling_judge (ε := ε) f r he
    simpa only [Transform.after, hok] using hrun

/-- The sample with another constant and all variables moved up by two. -/
theorem lowerInto_apply_relabels_body :
    let f : Literal → Literal := fun
      | .int 0 => .int 7
      | value => value
    let w : Workspace Unit := ⟨⟨0, Sample.nodes "xs"⟩, ()⟩
    let t : Transformer Empty Unit := relabelling f (· + 2)
    w.arena.Reachable ∧ Sample.body "xs" ∈ w.arena.nodes ∧
      ∃ e' w', t.apply (Sample.body "xs") w = .ok e' w' ∧
        (e'.lowerInto Code.sink Code.empty 9).error? = none ∧
        (e'.lowerInto Code.sink Code.empty 9).sink.instructions =
          #[.loadLocal 3, .pushLiteral (.int 7), .loadLocal 2, .pushInt 1, .newArray .int,
            .dupArrayRef, .pushInt 0, .pushLiteral (.int 7), .storeArrayElement,
            .invokeVirtual Sample.total, .storeArrayElement, .returnVoid] := by
  intro f w t
  have hbody : Sample.body "xs" ∈ w.arena.nodes := by simp [w, Sample.nodes]
  obtain ⟨e', w', hok, -, -, hlower, -⟩ := lowerInto_apply_relabels t f (· + 2) (fun _ => True)
    (relabelling_honest f (· + 2)) (relabelling_relabelsLeaves f (· + 2)) (Sample.body "xs") w
    (Sample.reachable "xs") trivial hbody
  obtain ⟨herror, hsink⟩ := hlower Code Code.sink Code.empty 9
  refine ⟨Sample.reachable "xs", hbody, e', w', hok, ?_, ?_⟩
  · rw [herror]
    decide
  · rw [hsink]
    decide

end Transformer

end MethodBody
