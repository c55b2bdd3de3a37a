import MethodBody.Proofs.Transcript

/-!
# Playing transcripts to sinks

Lowering an expression into a sink is playing its transcript to the sink. This is proved once, for
all sinks and all states, so that every other statement about lowering is one about transcripts.
-/

namespace MethodBody

variable {σ : Type}

/-- The state of a sink after it was given some instructions. -/
def Sink.feed (sink : Sink σ) (start : σ) (instructions : List Instruction) : σ :=
  instructions.foldl (fun state instruction => (sink.accept state instruction).1) start

/-- A sink that is given nothing stays as it is. -/
@[simp] theorem Sink.feed_nil (sink : Sink σ) (start : σ) : sink.feed start [] = start := rfl

/-- A sink is given the first instruction and then the others. -/
@[simp] theorem Sink.feed_cons (sink : Sink σ) (start : σ) (i : Instruction)
    (rest : List Instruction) :
    sink.feed start (i :: rest) = sink.feed (sink.accept start i).1 rest := rfl

/-- A sink that is given two lists in turn is given the second after the first. -/
@[simp] theorem Sink.feed_append (sink : Sink σ) (start : σ) (xs ys : List Instruction) :
    sink.feed start (xs ++ ys) = sink.feed (sink.feed start xs) ys := by
  simp [feed]

namespace Transcript

/-- Does one act of a transcript. -/
def perform (sink : Sink σ) (p : Progress σ) : Act → Progress σ
  | .report event => { p with events := p.events.push event }
  | .put instruction =>
    let (state, reported) := sink.accept p.sink instruction
    ⟨state, p.events ++ reported⟩

/-- Plays a transcript to a sink. -/
def play (sink : Sink σ) (t : Transcript) (p : Progress σ) :
    EStateM.Result LowerError (Progress σ) Unit :=
  match t.error? with
  | none => .ok () (t.acts.foldl (perform sink) p)
  | some error => .error error (t.acts.foldl (perform sink) p)

/-- The events that come of some acts: those of lowering itself and those of the sink. -/
def reports (sink : Sink σ) : σ → List Act → List Event
  | _, [] => []
  | state, .report event :: rest => event :: reports sink state rest
  | state, .put instruction :: rest =>
    (sink.accept state instruction).2 ++ reports sink (sink.accept state instruction).1 rest

/-- Doing some acts feeds the instructions to the sink and adds the events. -/
theorem foldl_perform (sink : Sink σ) (acts : List Act) (state : σ) (events : Array Event) :
    acts.foldl (perform sink) ⟨state, events⟩ =
      ⟨sink.feed state (acts.filterMap instruction?),
        events ++ (reports sink state acts).toArray⟩ := by
  induction acts generalizing state events with
  | nil => simp [reports]
  | cons act rest ih =>
    cases act with
    | report event =>
      simp only [List.foldl_cons, perform, ih, reports, instruction?, List.filterMap_cons]
      simp
    | put instruction =>
      have happend (xs ys : List Event) :
          events ++ xs ++ ys.toArray = events ++ (xs ++ ys).toArray := by
        apply Array.toList_inj.mp
        simp
      simp only [List.foldl_cons, perform, ih, reports, instruction?, List.filterMap_cons,
        Sink.feed_cons, happend]

/-- The action does what the transcript says, in whatever state it starts. -/
def Follows (sink : Sink σ) (action : Lower σ Unit) (t : Transcript) : Prop :=
  ∀ p, action p = t.play sink p

variable {sink : Sink σ}

/-- Doing nothing follows the empty transcript. -/
theorem follows_done : Follows sink (pure ()) done := fun _ => rfl

/-- Reporting an event follows the transcript that reports it. -/
theorem follows_report (event : Event) : Follows sink (Lower.report event) (report event) :=
  fun _ => rfl

/-- Handing over an instruction follows the transcript that hands it over. -/
theorem follows_put (instruction : Instruction) :
    Follows sink (Lower.put sink instruction) (put instruction) := fun _ => rfl

/-- Failing follows the transcript that stops. -/
theorem follows_stop (error : LowerError) : Follows sink (throw error) (stop error) := fun _ => rfl

/-- Actions in sequence follow transcripts in sequence: an action that fails ends both. -/
theorem Follows.seq {a b : Lower σ Unit} {t u : Transcript} (ha : Follows sink a t)
    (hb : Follows sink b u) : Follows sink (a >>= fun _ => b) (t ++ u) := by
  intro p
  change EStateM.bind a (fun _ => b) p = _
  cases ht : t.error? with
  | none =>
    rw [append_of_error?_eq_none ht]
    simp only [EStateM.bind, ha p, play, ht, List.foldl_append]
    exact hb _
  | some error =>
    rw [append_of_error?_eq_some ht]
    simp only [EStateM.bind, ha p, play, ht]

/-- Coming to a node follows its transcript, within the limit and beyond it. -/
theorem follows_enter (limit : Nat) (kind : Kind) (depth : Nat) :
    Follows sink (Lower.enter limit kind depth) (enter limit kind depth) := by
  unfold Lower.enter enter
  split
  · exact (follows_report _).seq (follows_stop _)
  · exact follows_report _

/-- Reporting variables follows its transcript, whether there are any or not. -/
theorem follows_reportLocals (locals : List Variable) :
    Follows sink (Lower.reportLocals locals) (reportLocals locals) := by
  unfold Lower.reportLocals reportLocals
  split
  · exact follows_done
  · exact follows_report _

end Transcript

namespace Lower

open Transcript

variable (sink : Sink σ) (limit : Nat)

/-- Several expressions follow their transcripts if each of them does. -/
theorem emitAll_follows {es : List Expr}
    (hes : ∀ e ∈ es, ∀ depth, Follows sink (emit sink limit e depth) (e.transcript limit depth))
    (depth : Nat) :
    Follows sink (emitAll sink limit es depth) (Expr.transcriptAll limit es depth) := by
  induction es with
  | nil => exact follows_done
  | cons e rest ih =>
    rw [emitAll, Expr.transcriptAll]
    exact (hes e (by simp) depth).seq (ih fun x hx => hes x (by simp [hx]))

/-- The elements of an array literal follow their transcript if each of them does. -/
theorem emitElements_follows {es : List Expr}
    (hes : ∀ e ∈ es, ∀ depth, Follows sink (emit sink limit e depth) (e.transcript limit depth))
    (position depth : Nat) :
    Follows sink (emitElements sink limit es position depth)
      (Expr.transcriptElements limit es position depth) := by
  induction es generalizing position with
  | nil => exact follows_done
  | cons e rest ih =>
    rw [emitElements, Expr.transcriptElements]
    simp only [append_assoc]
    exact (follows_put _).seq ((follows_put _).seq ((hes e (by simp) depth).seq
      ((follows_put _).seq (ih (fun x hx => hes x (by simp [hx])) (position + 1)))))

/-- Lowering an expression follows its transcript, into every sink. -/
theorem emit_follows (e : Expr) (depth : Nat) :
    Follows sink (emit sink limit e depth) (e.transcript limit depth) := by
  induction e using Expr.shape_induction generalizing depth with
  | constant id value => exact (follows_enter _ _ _).seq (follows_put _)
  | parameter id var => exact (follows_enter _ _ _).seq (follows_put _)
  | arrayIndex id array index => exact (follows_enter _ _ _).seq (follows_stop _)
  | member id target field ih =>
    rw [emit, Expr.transcript]
    simp only [append_assoc]
    exact (follows_enter _ _ _).seq ((ih _).seq (follows_put _))
  | assignMember id leftId target field right htarget hright =>
    rw [emit, Expr.transcript]
    simp only [append_assoc]
    exact (follows_enter _ _ _).seq ((follows_enter _ _ _).seq
      ((htarget _).seq ((hright _).seq (follows_put _))))
  | assignElement id leftId array index right harray hindex hright =>
    rw [emit, Expr.transcript]
    simp only [append_assoc]
    exact (follows_enter _ _ _).seq ((follows_enter _ _ _).seq
      ((harray _).seq ((hindex _).seq ((hright _).seq (follows_put _)))))
  | assignLocal id leftId var right hright =>
    rw [emit, Expr.transcript]
    simp only [append_assoc]
    exact (follows_enter _ _ _).seq ((hright _).seq (follows_put _))
  | assignOther id left right hleft =>
    have hemit : emit sink limit (.assign id left right) depth = (do
        enter limit .assign depth
        report (.rejectedTarget left.kind)
        throw (.invalidAssignmentTarget left.kind)) := by
      cases left with
      | member | arrayIndex | parameter => simp [Expr.isAssignable, Expr.kind] at hleft
      | assign | constant | call | block | newArray => simp only [emit]
    rw [hemit, Expr.transcript_assign_of_not_assignable hleft, append_assoc]
    exact (follows_enter _ _ _).seq ((follows_report _).seq (follows_stop _))
  | callStatic id sig args hargs =>
    rw [emit, Expr.transcript]
    simp only [append_assoc]
    exact (follows_enter _ _ _).seq ((emitAll_follows sink limit hargs _).seq (follows_put _))
  | callVirtual id receiver sig args hreceiver hargs =>
    rw [emit, Expr.transcript]
    simp only [append_assoc]
    exact (follows_enter _ _ _).seq ((hreceiver _).seq
      ((emitAll_follows sink limit hargs _).seq (follows_put _)))
  | newArray id element elements helements =>
    rw [emit, Expr.transcript]
    simp only [append_assoc]
    exact (follows_enter _ _ _).seq ((follows_put _).seq ((follows_put _).seq
      (emitElements_follows sink limit helements 0 _)))
  | block id ty locals statements result hstatements hresult =>
    rw [emit, Expr.transcript]
    simp only [append_assoc]
    exact (follows_enter _ _ _).seq ((follows_reportLocals _).seq
      ((emitAll_follows sink limit hstatements _).seq ((hresult _).seq (follows_put _))))

end Lower

/-- Recording instructions one by one adds them at the end. -/
@[simp] theorem Code.instructions_feed (code : Code) (instructions : List Instruction) :
    (Code.sink.feed code instructions).instructions.toList =
      code.instructions.toList ++ instructions := by
  induction instructions generalizing code with
  | nil => simp
  | cons i rest ih =>
    rw [Sink.feed_cons, ih]
    simp [Code.sink]

/-- What was recorded after a point is what was fed to the recorder since. -/
@[simp] theorem Code.since_feed (code : Code) (instructions : List Instruction) :
    (Code.sink.feed code instructions).since code.length = instructions := by
  simp [since, length]

namespace Expr

open Transcript (reports foldl_perform)

variable (e : Expr) (limit : Nat)

/-- What comes of lowering into a sink, read off the transcript. -/
theorem lowerInto_eq (sink : Sink σ) (start : σ) :
    e.lowerInto sink start limit =
      { error? := (e.transcript limit 0).error?
        sink := sink.feed start (e.transcript limit 0).instructions
        events := (reports sink start (e.transcript limit 0).acts).toArray } := by
  unfold lowerInto Lower.run Lower.visit EStateM.run
  rw [Lower.emit_follows sink limit e 0 ⟨start, #[]⟩, Transcript.play, foldl_perform]
  cases (e.transcript limit 0).error? <;> simp [Transcript.instructions]

/-- A method body is lowered between the two events that frame it. -/
theorem body_apply (p : Progress Code) :
    Lower.body limit e p =
      EStateM.bind (Lower.emit Code.sink limit e 0)
        (fun _ q => .ok () ⟨q.sink,
          q.events.push (.finished q.sink.length q.sink.maxStack q.sink.maxLocals)⟩)
        ⟨p.sink, p.events.push (.started e.kind)⟩ := rfl

/-- What comes of compiling a method body, read off the transcript. -/
theorem compile_eq :
    e.compile limit =
      let t := e.transcript limit 0
      let code := Code.sink.feed Code.empty t.instructions
      let finished := Event.finished code.length code.maxStack code.maxLocals
      { error? := t.error?
        sink := code
        events := (.started e.kind :: reports Code.sink Code.empty t.acts
          ++ if t.error? = none then [finished] else []).toArray } := by
  have hemit := Lower.emit_follows Code.sink limit e 0 ⟨Code.empty, #[.started e.kind]⟩
  rw [Transcript.play, foldl_perform] at hemit
  unfold compile Lower.run EStateM.run
  rw [body_apply]
  cases herror : (e.transcript limit 0).error? with
  | none =>
    simp only [herror] at hemit
    simp [EStateM.bind, hemit, Transcript.instructions, herror]
  | some error =>
    simp only [herror] at hemit
    simp [EStateM.bind, hemit, Transcript.instructions, herror]

/-- Compiling fails with the error of the transcript. -/
@[simp] theorem error?_compile : (e.compile limit).error? = (e.transcript limit 0).error? := by
  rw [compile_eq]

/-- The code is what the transcript hands over. -/
@[simp] theorem instructions_compile :
    (e.compile limit).sink.instructions.toList = (e.transcript limit 0).instructions := by
  rw [compile_eq]
  simp [Code.empty]

end Expr

end MethodBody
