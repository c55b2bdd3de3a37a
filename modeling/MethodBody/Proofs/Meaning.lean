import MethodBody.Proofs.Machine
import MethodBody.Proofs.Regular

/-!
# Lowering preserves meaning

Running the code of an expression on any machine does what evaluating the expression does, and
leaves its value on top of the operand stack. The stack below is arbitrary throughout, since the
code of an operand runs on top of the operands before it.
-/

namespace MethodBody

universe u

namespace Machine

variable {V S α β : Type u}

/-- Evaluation goes on from what the first step gave. -/
theorem bind_eq {x : Effect S α} {f : α → Effect S β} {s s' : S} {a : α}
    (h : x s = some (a, s')) : (x >>= f) s = f a s' := by
  change (x s).bind (fun p => f p.1 p.2) = _
  rw [h]
  rfl

/-- An operand that has a value is used without any effect. -/
theorem demand_some (value : V) (s : S) : demand (some value) s = some (value, s) := rfl

/-- A call has a result if its signature declares one. -/
theorem isSome_resultOf (sig : Signature) (value : V) :
    (resultOf sig value).isSome = sig.returnsValue := by
  unfold resultOf
  cases sig.returnsValue <;> rfl

/-- The values that were pushed last are taken off in order. -/
theorem takeTop_reverse_append (values stack : List V) :
    takeTop values.length (values.reverse ++ stack) = some (values, stack) := by
  simp [takeTop]

variable (m : Machine V S)

/-- A call without a receiver uses the values that were pushed last. -/
theorem step_invokeStatic {sig : Signature} {values : List V}
    (hlength : values.length = sig.params.length) (stack : List V) (s : S) :
    m.step (.invokeStatic sig) (values.reverse ++ stack) s =
      some (.running ((resultOf sig (m.invokeStatic sig values s).1).toList ++ stack)
        (m.invokeStatic sig values s).2) := by
  change (takeTop sig.params.length (values.reverse ++ stack)).map _ = _
  rw [← hlength, takeTop_reverse_append]
  rfl

/-- A call with a receiver uses the values that were pushed last, and the one below them. -/
theorem step_invokeVirtual {sig : Signature} {values : List V}
    (hlength : values.length = sig.params.length) (object : V) (stack : List V) (s : S) :
    m.step (.invokeVirtual sig) (values.reverse ++ object :: stack) s =
      some (.running ((resultOf sig (m.invokeVirtual sig object values s).1).toList ++ stack)
        (m.invokeVirtual sig object values s).2) := by
  change (takeTop sig.params.length (values.reverse ++ object :: stack)).bind _ = _
  rw [← hlength, takeTop_reverse_append]
  rfl

/-- The first instruction is done, and the others are run from where it leads. -/
theorem run_cons (i : Instruction) (rest : List Instruction) (stack : List V) (s : S) :
    m.run (i :: rest) (.running stack s) = (m.step i stack s).bind (m.run rest) := rfl

/-- Running two pieces of code in turn. -/
theorem run_append (xs ys : List Instruction) (config : Config V S) :
    m.run (xs ++ ys) config = (m.run xs config).bind (m.run ys) := by
  induction xs generalizing config with
  | nil => rfl
  | cons i rest ih =>
    cases config with
    | returned value? s => rfl
    | running stack s =>
      simp only [List.cons_append, run, Option.bind_assoc]
      congr 1
      funext next
      exact ih next

/-- Running the code of an expression does what evaluating it does, and pushes its value. -/
def Agrees (e : Expr) : Prop :=
  ∀ s, ∃ value? s', m.eval e s = some (value?, s') ∧ value?.isSome = e.hasValue ∧
    ∀ stack, m.run e.code (.running stack s) = some (.running (value?.toList ++ stack) s')

variable {m}

/-- An operand leaves its value on top of the stack. -/
theorem Agrees.push {e : Expr} (h : m.Agrees e) (hvalue : e.hasValue = true) (s : S) :
    ∃ value s', m.eval e s = some (some value, s') ∧
      ∀ stack, m.run e.code (.running stack s) = some (.running (value :: stack) s') := by
  obtain ⟨value?, s', heval, hsome, hrun⟩ := h s
  rw [hvalue] at hsome
  obtain ⟨value, rfl⟩ := Option.isSome_iff_exists.mp hsome
  exact ⟨value, s', heval, hrun⟩

/-- Operands leave their values on the stack, the last one on top. -/
theorem push_all {es : List Expr} (hes : ∀ e ∈ es, m.Agrees e)
    (hvalues : ∀ e ∈ es, e.hasValue = true) (s : S) :
    ∃ values s', m.evalAll es s = some (values, s') ∧ values.length = es.length ∧
      ∀ stack, m.run (Expr.codeAll es) (.running stack s) =
        some (.running (values.reverse ++ stack) s') := by
  induction es generalizing s with
  | nil => exact ⟨[], s, rfl, rfl, fun stack => rfl⟩
  | cons e rest ih =>
    obtain ⟨value, s₁, heval, hrun⟩ := (hes e (by simp)).push (hvalues e (by simp)) s
    obtain ⟨values, s₂, hevals, hlength, hruns⟩ :=
      ih (fun x hx => hes x (by simp [hx])) (fun x hx => hvalues x (by simp [hx])) s₁
    refine ⟨value :: values, s₂, ?_, by simp [hlength], ?_⟩
    · rw [evalAll, bind_eq heval, bind_eq (demand_some value s₁), bind_eq hevals]
      rfl
    · intro stack
      rw [Expr.codeAll, run_append, hrun, Option.bind_some, hruns]
      simp

/-- Positions within the admitted length of an array are pushed as they are. -/
theorem toInt_ofNat_position {n : Nat} (hn : n ≤ Build.maxArrayLength) :
    (Int32.ofNat n).toInt = n := by
  apply Int32.toInt_ofNat_of_lt
  unfold Build.maxArrayLength at hn
  omega

/-- Elements are stored one after the other into the array on top of the stack, which stays. -/
theorem fill_elements {es : List Expr} (hes : ∀ e ∈ es, m.Agrees e)
    (hvalues : ∀ e ∈ es, e.hasValue = true) (array : V) (position : Nat)
    (hlength : position + es.length ≤ Build.maxArrayLength) (s : S) :
    ∃ s', m.fill array position es s = some (⟨⟩, s') ∧
      ∀ stack, m.run (Expr.codeElements position es) (.running (array :: stack) s) =
        some (.running (array :: stack) s') := by
  induction es generalizing position s with
  | nil => exact ⟨s, rfl, fun stack => rfl⟩
  | cons e rest ih =>
    obtain ⟨value, s₁, heval, hrun⟩ := (hes e (by simp)).push (hvalues e (by simp)) s
    rw [List.length_cons] at hlength
    obtain ⟨s₂, hfill, hruns⟩ := ih (fun x hx => hes x (by simp [hx]))
      (fun x hx => hvalues x (by simp [hx])) (position + 1) (by omega)
      (m.storeElement array (m.int position) value s₁)
    refine ⟨s₂, ?_, ?_⟩
    · rw [fill, bind_eq heval]
      exact hfill
    · intro stack
      have hpushed : m.run (.dupArrayRef :: .pushInt (Int32.ofNat position) :: e.code)
          (.running (array :: stack) s) =
            some (.running (value :: m.int position :: array :: array :: stack) s₁) := by
        have hposition := toInt_ofNat_position (show position ≤ Build.maxArrayLength by omega)
        change m.run e.code (.running (m.int _ :: array :: array :: stack) s) = _
        rw [hposition, hrun]
      rw [Expr.codeElements, run_append, hpushed]
      exact hruns stack

/-- The code of a regular expression agrees with its meaning, if all operands have values. -/
theorem agrees_of_regular {e : Expr} (h : e.Regular fun x => x.hasValue = true) : m.Agrees e := by
  induction h with
  | constant => exact fun s => ⟨_, s, rfl, rfl, fun stack => rfl⟩
  | parameter => exact fun s => ⟨_, s, rfl, rfl, fun stack => rfl⟩
  | @member id target field _ hQ ih =>
    intro s
    obtain ⟨object, s₁, heval, hrun⟩ := ih.push hQ s
    refine ⟨some (m.getField field object s₁).1, (m.getField field object s₁).2, ?_, rfl, ?_⟩
    · rw [eval, bind_eq heval]
      rfl
    · intro stack
      rw [Expr.code, run_append, hrun]
      rfl
  | @assignMember id leftId target right field _ _ hQ hQ' iht ihr =>
    intro s
    obtain ⟨object, s₁, heval, hrun⟩ := iht.push hQ s
    obtain ⟨value, s₂, heval', hrun'⟩ := ihr.push hQ' s₁
    refine ⟨none, m.putField field object value s₂, ?_, rfl, ?_⟩
    · rw [eval, bind_eq heval, bind_eq (demand_some object s₁), bind_eq heval']
      rfl
    · intro stack
      rw [Expr.code, run_append, run_append, hrun, Option.bind_some, hrun']
      rfl
  | @assignElement id leftId array index right _ _ _ hQ hQ' hQ'' iha ihi ihr =>
    intro s
    obtain ⟨a, s₁, heval, hrun⟩ := iha.push hQ s
    obtain ⟨i, s₂, heval', hrun'⟩ := ihi.push hQ' s₁
    obtain ⟨value, s₃, heval'', hrun''⟩ := ihr.push hQ'' s₂
    refine ⟨none, m.storeElement a i value s₃, ?_, rfl, ?_⟩
    · rw [eval, bind_eq heval, bind_eq (demand_some a s₁), bind_eq heval',
        bind_eq (demand_some i s₂), bind_eq heval'']
      rfl
    · intro stack
      rw [Expr.code, run_append, run_append, run_append, hrun, Option.bind_some, hrun',
        Option.bind_some, hrun'']
      rfl
  | @assignLocal id leftId var right _ hQ ih =>
    intro s
    obtain ⟨value, s₁, heval, hrun⟩ := ih.push hQ s
    refine ⟨none, m.storeLocal var.slot value s₁, ?_, rfl, ?_⟩
    · rw [eval, bind_eq heval]
      rfl
    · intro stack
      rw [Expr.code, run_append, hrun]
      rfl
  | @callStatic id sig args _ hQ harity ih =>
    intro s
    obtain ⟨values, s₁, heval, hlength, hrun⟩ := push_all ih hQ s
    refine ⟨resultOf sig (m.invokeStatic sig values s₁).1, (m.invokeStatic sig values s₁).2,
      ?_, ?_, ?_⟩
    · rw [eval, bind_eq heval]
      rfl
    · rw [isSome_resultOf, Expr.hasValue]
    · intro stack
      rw [Expr.code, run_append, hrun, Option.bind_some, run_cons,
        step_invokeStatic m (hlength.trans harity)]
      rfl
  | @callVirtual id receiver sig args _ _ hQ hQ' harity ihr ih =>
    intro s
    obtain ⟨object, s₁, heval, hrun⟩ := ihr.push hQ s
    obtain ⟨values, s₂, heval', hlength, hrun'⟩ := push_all ih hQ' s₁
    refine ⟨resultOf sig (m.invokeVirtual sig object values s₂).1,
      (m.invokeVirtual sig object values s₂).2, ?_, ?_, ?_⟩
    · rw [eval, bind_eq heval, bind_eq (demand_some object s₁), bind_eq heval']
      rfl
    · rw [isSome_resultOf, Expr.hasValue]
    · intro stack
      rw [Expr.code, run_append, run_append, hrun, Option.bind_some, hrun', Option.bind_some,
        run_cons, step_invokeVirtual m (hlength.trans harity)]
      rfl
  | @newArray id element elements _ hQ hlength ih =>
    intro s
    have hlen := toInt_ofNat_position hlength
    obtain ⟨s₁, hfill, hrun⟩ := fill_elements ih hQ
      (m.newArray element (m.int elements.length) s).1 0 (by omega)
      (m.newArray element (m.int elements.length) s).2
    refine ⟨some (m.newArray element (m.int elements.length) s).1, s₁, ?_, rfl, ?_⟩
    · rw [eval]
      change (m.fill _ 0 elements >>= fun _ => pure _) _ = _
      rw [bind_eq hfill]
      rfl
    · intro stack
      rw [Expr.code]
      change m.run (Expr.codeElements 0 elements)
        (.running ((m.newArray element (m.int _) s).1 :: stack) (m.newArray element _ s).2) = _
      rw [hlen, hrun]
      rfl

/-- Statements may leave values on the stack, which are of no use to anything after them. -/
theorem exec_statements {es : List Expr} (hes : ∀ e ∈ es, m.Agrees e) (s : S) :
    ∃ left s', m.execAll es s = some (⟨⟩, s') ∧
      ∀ stack, m.run (Expr.codeAll es) (.running stack s) =
        some (.running (left ++ stack) s') := by
  induction es generalizing s with
  | nil => exact ⟨[], s, rfl, fun stack => rfl⟩
  | cons e rest ih =>
    obtain ⟨value?, s₁, heval, -, hrun⟩ := hes e (by simp) s
    obtain ⟨left, s₂, hexec, hruns⟩ := ih (fun x hx => hes x (by simp [hx])) s₁
    refine ⟨left ++ value?.toList, s₂, ?_, ?_⟩
    · rw [execAll, bind_eq heval]
      exact hexec
    · intro stack
      rw [Expr.codeAll, run_append, hrun, Option.bind_some, hruns, List.append_assoc]

/-- The ending is one that the tree can have: a block returns, with a value unless it is void, and
any other tree leaves a value if it has one. -/
def Ending.Fits (ending : Ending V) (e : Expr) : Prop :=
  match ending with
  | .value value? => e.NotBlock ∧ value?.isSome = e.hasValue
  | .returned value? => ∃ id ty locals statements result,
    e = .block id ty locals statements result ∧ value?.isSome = !ty.isVoid

/-- A method body agrees with its meaning if its statements and its result do. A body that returns
a value must have a result that has one. -/
theorem run_block {id : NodeId} {ty : Ty} {locals : List Variable} {statements : List Expr}
    {result : Expr} (hstatements : ∀ x ∈ statements, m.Agrees x) (hresult : m.Agrees result)
    (hvalue : ty.isVoid = false → result.hasValue = true) (stack : List V) (s : S) :
    ∃ ending s', m.evalRoot (.block id ty locals statements result) s = some (ending, s') ∧
      ending.Fits (.block id ty locals statements result) ∧
      m.run (Expr.block id ty locals statements result).code (.running stack s) =
        some (ending.config stack s') := by
  obtain ⟨left, s₁, hexec, hrun⟩ := exec_statements hstatements s
  rw [evalRoot, bind_eq hexec, Expr.code, run_append, run_append, hrun, Option.bind_some]
  cases hvoid : ty.isVoid with
  | true =>
    obtain ⟨value?, s₂, heval, -, hrun'⟩ := hresult s₁
    refine ⟨.returned none, s₂, ?_, ⟨id, ty, locals, statements, result, rfl, by simp [hvoid]⟩, ?_⟩
    · rw [bind_eq heval]
      rfl
    · rw [hrun']
      rfl
  | false =>
    obtain ⟨value, s₂, heval, hrun'⟩ := hresult.push (hvalue hvoid) s₁
    refine ⟨.returned (some value), s₂, ?_,
      ⟨id, ty, locals, statements, result, rfl, by simp [hvoid]⟩, ?_⟩
    · rw [bind_eq heval]
      rfl
    · rw [hrun']
      rfl

/-- Any other tree agrees with its meaning if it does as an expression. -/
theorem run_root {e : Expr} (he : e.NotBlock) (h : m.Agrees e) (stack : List V) (s : S) :
    ∃ ending s', m.evalRoot e s = some (ending, s') ∧ ending.Fits e ∧
      m.run e.code (.running stack s) = some (ending.config stack s') := by
  obtain ⟨value?, s', heval, hsome, hrun⟩ := h s
  refine ⟨.value value?, s', ?_, ⟨he, hsome⟩, hrun stack⟩
  have hroot : m.evalRoot e = m.eval e >>= fun value? => pure (.value value?) := by
    cases e with
    | block => exact absurd rfl he
    | _ => rfl
  rw [hroot, bind_eq heval]
  rfl

end Machine

/-- Lowering preserves meaning. On every machine, from every stack and state, running the compiled
code of a tree ends as evaluating the tree ends, and in the same state. Since the states are
arbitrary, they may be taken as the list of all that was done, so the effects are the same ones in
the same order. The tree has blocks at its root only, and all its operands have values. -/
theorem Machine.run_compile_eq_evalRoot {V S : Type u} (m : Machine V S) (e : Expr) (limit : Nat)
    (hmade : e.BuilderMade) (hblocks : ∀ c ∈ e.children, c.Every Expr.NotBlock)
    (hvalued : e.Every Expr.OperandsValued) (hok : (e.compile limit).error? = none)
    (stack : List V) (s : S) :
    ∃ ending s', m.evalRoot e s = some (ending, s') ∧ ending.Fits e ∧
      m.run (e.compile limit).sink.instructions.toList (.running stack s) =
        some (ending.config stack s') := by
  rw [Expr.instructions_compile_eq_code hok]
  cases hmade.regularRoot hblocks hvalued hok with
  | expr he h => exact run_root he (agrees_of_regular h) stack s
  | body hstatements hresult hvalue =>
    exact run_block (fun x hx => agrees_of_regular (hstatements x hx)) (agrees_of_regular hresult)
      hvalue stack s

/-- A machine over numbers that logs what it stores, makes and calls. -/
def Sample.logger : Machine Int (List (List Int)) where
  literal
    | .int n => n.toInt
    | _ => 0
  int n := n
  localValue slot _ := Int.ofNat slot.toNat
  storeLocal slot value log := log ++ [[Int.ofNat slot.toNat, value]]
  getField _ object log := (object, log)
  putField _ object value log := log ++ [[object, value]]
  newArray _ length log := (Int.ofNat (100 + log.length), log ++ [[length]])
  storeElement array index value log := log ++ [[array, index, value]]
  invokeVirtual _ receiver args log := (Int.ofNat log.length, log ++ [receiver :: args])
  invokeStatic _ args log := (Int.ofNat log.length, log ++ [args])

/-- The sample body on the machine that logs: an array of length one is made and filled, the method
is called with it, and the result goes into the array that was given. -/
theorem Machine.run_compile_eq_evalRoot_body :
    let e := Sample.body "xs"
    let log : List (List Int) := [[1], [100, 0, 0], [0, 100], [1, 0, 2]]
    e.BuilderMade ∧ (∀ c ∈ e.children, c.Every Expr.NotBlock) ∧ e.Every Expr.OperandsValued ∧
      (e.compile 4).error? = none ∧
      Sample.logger.evalRoot e [] = some (.returned none, log) ∧
      Sample.logger.run (e.compile 4).sink.instructions.toList (.running [7] []) =
        some (.returned none log) := by
  intro e log
  have hmade := Sample.builderMade_body "xs"
  have hblocks := Sample.every_notBlock_children_body "xs"
  have hvalued : e.Every Expr.OperandsValued := by
    rw [Expr.every_iff]
    simpa [e, Sample.body, Expr.children, Expr.OperandsValued, Expr.operands, Ty.isVoid]
      using Sample.every_operandsValued_store "xs"
  have hok : (e.compile 4).error? = none := by decide
  have heval : Sample.logger.evalRoot e [] = some (.returned none, log) := rfl
  obtain ⟨ending, s', heval', -, hrun⟩ :=
    run_compile_eq_evalRoot Sample.logger e 4 hmade hblocks hvalued hok [7] []
  rw [heval] at heval'
  cases heval'
  exact ⟨hmade, hblocks, hvalued, hok, heval, hrun⟩

end MethodBody
