import MethodBody.Proofs.Acceptance
import MethodBody.Proofs.Parts

/-!
# What compiling reports

The events of a compilation follow the tree: every occurrence is reported when lowering comes to it,
in preorder, and a block that declares variables says so at once. In between stand the warnings of
the recorder, and the end says how it came out. `Account` splits a list of events in this way, and
accounts of what is done one after the other are put together by `Told.append`.
-/

namespace MethodBody

/-- The occurrences that lowering comes to, in preorder. -/
def Expr.visited (e : Expr) : List Occurrence := e.occurrences.filter Occurrence.isVisited

/-- The kinds of the occurrences that lowering comes to, with their distances from the root. -/
def Expr.preorder (e : Expr) : List (Kind × Nat) :=
  e.visited.map fun o => (o.node.kind, o.depth)

/-- The kind and the depth that an event gives, if it says that lowering came to a node. -/
def Event.visit? : Event → Option (Kind × Nat)
  | .visit kind depth => some (kind, depth)
  | _ => none

/-- A stage of lowering as its events show it. -/
inductive Stage where
  /-- Lowering comes to an occurrence. -/
  | arrival (o : Occurrence)
  /-- The recorder finds fewer operands than an instruction takes. -/
  | shortage (instruction : Instruction) (depth : Nat)

namespace Stage

/-- How variables that are declared are reported, if there are any. -/
def declarations (locals : List Variable) : List Event :=
  if locals.isEmpty then [] else [.blockLocals locals.length]

/-- The events of a stage. The variables of a block are reported right after its visit. -/
def events : Stage → List Event
  | arrival o => .visit o.node.kind o.depth :: declarations o.node.declared
  | shortage instruction depth => [.underflow instruction depth]

/-- Variables are reported by their number. -/
theorem declarations_cases (locals : List Variable) :
    locals.length = 0 ∧ declarations locals = [] ∨
      0 < locals.length ∧ declarations locals = [.blockLocals locals.length] := by
  cases locals with
  | nil => exact .inl ⟨rfl, rfl⟩
  | cons var rest => exact .inr ⟨Nat.zero_lt_succ _, rfl⟩

/-- The occurrence that lowering comes to. -/
def occurrence? : Stage → Option Occurrence
  | arrival o => some o
  | shortage _ _ => none

/-- The occurrences that lowering comes to in some stages. -/
def arrivals (stages : List Stage) : List Occurrence := stages.filterMap occurrence?

/-- The occurrences of stages in turn. -/
@[simp] theorem arrivals_append (stages stages' : List Stage) :
    arrivals (stages ++ stages') = arrivals stages ++ arrivals stages' :=
  List.filterMap_append

end Stage

/-- The events with which a failing lowering ends. -/
def Closes : Option LowerError → List Event → Prop
  | none, closing => closing = []
  | some (.nestingTooDeep depth _), closing => ∃ kind, closing = [.nestingLimit kind depth]
  | some (.invalidAssignmentTarget kind), closing => closing = [.rejectedTarget kind]
  | some (.unsupportedNode _ _), closing => closing = []

/-- The events tell of stages that come to occurrences within the limit, from the first of `os` on
and to the last if lowering goes through, and of the error if it does not. -/
structure Account (limit : Nat) (os : List Occurrence) (error? : Option LowerError)
    (events : List Event) (stages : List Stage) (closing : List Event) : Prop where
  events_eq : events = stages.flatMap Stage.events ++ closing
  arrivals_prefix : Stage.arrivals stages <+: os.filter Occurrence.isVisited
  complete : error? = none → Stage.arrivals stages = os.filter Occurrence.isVisited
  within : ∀ o ∈ Stage.arrivals stages, o.depth ≤ limit
  closes : Closes error? closing

namespace Transcript

/-- Playing the transcript to a recorder, in whatever state it is, tells of the occurrences `os`. -/
def Told (limit : Nat) (t : Transcript) (os : List Occurrence) : Prop :=
  ∀ code, ∃ stages closing,
    Account limit os t.error? (reports Code.sink code t.acts) stages closing

/-- Events follow one another. The sink that is given the second part has been given the first. -/
theorem reports_append {σ : Type} (sink : Sink σ) (state : σ) (xs ys : List Act) :
    reports sink state (xs ++ ys) =
      reports sink state xs ++ reports sink (sink.feed state (xs.filterMap instruction?)) ys := by
  induction xs generalizing state with
  | nil => rfl
  | cons act rest ih =>
    cases act with
    | report event => exact congrArg (event :: ·) (ih state)
    | put instruction =>
      simp only [List.cons_append, reports, ih, List.append_assoc]
      rfl

variable {limit : Nat} {os os' : List Occurrence}

/-- What is told one after the other is told of the occurrences in turn. -/
theorem Told.append {a b : Transcript} (ha : a.Told limit os) (hb : b.Told limit os') :
    (a ++ b).Told limit (os ++ os') := by
  intro code
  obtain ⟨stages, closing, account⟩ := ha code
  cases herror : a.error? with
  | some error =>
    rw [append_of_error?_eq_some herror]
    refine ⟨stages, closing, account.events_eq, ?_, ?_, account.within, account.closes⟩
    · rw [List.filter_append]
      exact account.arrivals_prefix.trans (List.prefix_append _ _)
    · simp [herror]
  | none =>
    have harrivals := account.complete herror
    have hevents : reports Code.sink code a.acts = stages.flatMap Stage.events := by
      have hclosing : closing = [] := by simpa [herror, Closes] using account.closes
      rw [account.events_eq, hclosing, List.append_nil]
    obtain ⟨stages', closing', account'⟩ := hb (Code.sink.feed code a.instructions)
    rw [append_of_error?_eq_none herror]
    refine ⟨stages ++ stages', closing', ?_, ?_, fun hnone => ?_, fun o ho => ?_, account'.closes⟩
    · rw [reports_append, hevents, List.flatMap_append, List.append_assoc, ← account'.events_eq]
      rfl
    · rw [Stage.arrivals_append, harrivals, List.filter_append, List.prefix_append_right_inj]
      exact account'.arrivals_prefix
    · rw [Stage.arrivals_append, harrivals, account'.complete hnone, List.filter_append]
    · rw [Stage.arrivals_append, List.mem_append] at ho
      rcases ho with ho | ho
      · exact account.within o ho
      · exact account'.within o ho

/-- Nothing is told of occurrences that are passed over. -/
theorem told_done (hos : ∀ o ∈ os, o.isVisited = false) : done.Told limit os := by
  have hnone : os.filter Occurrence.isVisited = [] := by simpa using hos
  exact fun _ => ⟨[], [], rfl, List.nil_prefix, fun _ => hnone.symm, by simp [Stage.arrivals], rfl⟩

/-- An instruction tells of no occurrence, and at most of missing operands. -/
theorem told_put (instruction : Instruction) : (put instruction).Told limit [] := by
  intro code
  by_cases hshort : instruction.effect.pops > code.depth
  · refine ⟨[.shortage instruction code.depth], [], ?_, List.prefix_rfl, fun _ => rfl, ?_, rfl⟩
    · simp [put, reports, Code.sink, Code.warning?, hshort, Stage.events]
    · simp [Stage.arrivals, Stage.occurrence?]
  · refine ⟨[], [], ?_, List.prefix_rfl, fun _ => rfl, by simp [Stage.arrivals], rfl⟩
    simp [put, reports, Code.sink, Code.warning?, hshort]

/-- Coming to an occurrence tells of it, and of the variables it declares, or of the limit. -/
theorem told_arrival {o : Occurrence} (ho : o.isVisited = true) :
    (enter limit o.node.kind o.depth ++ reportLocals o.node.declared).Told limit [o] := by
  intro code
  have hvisited : [o].filter Occurrence.isVisited = [o] := by simp [ho]
  by_cases hdeep : limit < o.depth
  · have hstop : (enter limit o.node.kind o.depth).error? =
        some (.nestingTooDeep o.depth limit) := by simp [hdeep]
    rw [append_of_error?_eq_some hstop, hstop]
    refine ⟨[], [.nestingLimit o.node.kind o.depth], ?_, List.nil_prefix, nofun, ?_, _, rfl⟩
    · rw [enter, if_pos hdeep]
      rfl
    · simp [Stage.arrivals]
  · have hvisit : enter limit o.node.kind o.depth = report (.visit o.node.kind o.depth) := by
      rw [enter, if_neg hdeep]
    rw [hvisit]
    refine ⟨[.arrival o], [], ?_, ?_, fun _ => hvisited.symm, ?_, ?_⟩
    · unfold reportLocals
      cases hlocals : o.node.declared.isEmpty with
      | true =>
        simp only [List.flatMap_singleton, Stage.events, Stage.declarations, hlocals]
        rfl
      | false =>
        simp only [List.flatMap_singleton, Stage.events, Stage.declarations, hlocals]
        rfl
    · rw [hvisited]
      exact List.prefix_rfl
    · simpa [Stage.arrivals, Stage.occurrence?] using hdeep
    · simp [Closes]

/-- Where nothing is come to any more, nothing more is told. -/
theorem told_unsupported (kind : Kind) (context : String) :
    (stop (.unsupportedNode kind context)).Told limit os := fun _ =>
  ⟨[], [], rfl, List.nil_prefix, nofun, by simp [Stage.arrivals], rfl⟩

/-- A left side that is refused is told of, and nothing more. -/
theorem told_rejected (kind : Kind) :
    (report (.rejectedTarget kind) ++ stop (.invalidAssignmentTarget kind)).Told limit os :=
  fun _ => ⟨[], [.rejectedTarget kind], rfl, List.nil_prefix, nofun, by simp [Stage.arrivals], rfl⟩

end Transcript

namespace Expr

open Transcript

/-- Lowering tells of the occurrences in the expression. -/
theorem told_transcript (e : Expr) (limit depth : Nat) :
    (e.transcript limit depth).Told limit (e.occurrencesAt false depth) := by
  refine transcript_induction (Q := fun os t => (t limit).Told limit os) (told_done nofun) .append
    (fun o ho => told_arrival ho) ?_ told_put (fun os => told_unsupported _ _)
    (fun os kind => told_rejected kind) e depth
  intro id var depth
  apply told_done
  simp [Occurrence.isVisited, kind]

end Expr

/-- What the events of a compilation end with: how large the code is, or why there is none. An
element out of place is refused without an event. -/
inductive Ending (out : Outcome Code) (limit : Nat) : List Event → Prop where
  | finished (hok : out.error? = none) :
      Ending out limit [.finished out.sink.length out.sink.maxStack out.sink.maxLocals]
  | tooDeep (kind : Kind) (herror : out.error? = some (.nestingTooDeep (limit + 1) limit)) :
      Ending out limit [.nestingLimit kind (limit + 1)]
  | rejected (kind : Kind) (herror : out.error? = some (.invalidAssignmentTarget kind)) :
      Ending out limit [.rejectedTarget kind]
  | unsupported (kind : Kind) (context : String)
      (herror : out.error? = some (.unsupportedNode kind context)) : Ending out limit []

/-- The events of a compilation tell where it begins, of the stages it goes through, and how it
ends. -/
structure Tale (e : Expr) (limit : Nat) (out : Outcome Code) (stages : List Stage)
    (last : List Event) : Prop where
  events_eq : out.events.toList = .started e.kind :: (stages.flatMap Stage.events ++ last)
  arrivals_prefix : Stage.arrivals stages <+: e.visited
  complete : out.error? = none → Stage.arrivals stages = e.visited
  within : ∀ o ∈ Stage.arrivals stages, o.depth ≤ limit
  ending : Ending out limit last

/-- The first offence gives the depth just past the limit if it is one of depth. -/
theorem firstOffence?_tooDeep {limit depth max : Nat} {os : List Occurrence}
    (h : firstOffence? limit os = some (.nestingTooDeep depth max)) :
    depth = limit + 1 ∧ max = limit := by
  obtain ⟨o, -, hoffence⟩ := List.exists_of_findSome?_eq_some h
  exact (Occurrence.tooDeep_of_offence? hoffence).2

/-- Every compilation has its tale. -/
theorem Expr.compile_tale (e : Expr) (limit : Nat) :
    ∃ stages last, Tale e limit (e.compile limit) stages last := by
  obtain ⟨stages, closing, account⟩ := e.told_transcript limit 0 Code.empty
  have hfirst := e.error?_compile_eq limit
  have herror := e.error?_compile limit
  have hclosing := account.closes
  have hevents : (e.compile limit).events.toList =
      .started e.kind :: (stages.flatMap Stage.events ++ (closing ++
        if (e.compile limit).error? = none then
          [.finished (e.compile limit).sink.length (e.compile limit).sink.maxStack
            (e.compile limit).sink.maxLocals]
        else [])) := by
    rw [herror, ← List.append_assoc, ← account.events_eq, e.compile_eq limit]
    simp
  refine ⟨stages, _, hevents, account.arrivals_prefix, fun hok => ?_, account.within, ?_⟩
  · exact account.complete (herror ▸ hok)
  rw [← herror] at hclosing
  cases hout : (e.compile limit).error? with
  | none =>
    rw [hout] at hclosing
    rw [show closing = [] from hclosing]
    exact .finished hout
  | some error =>
    rw [hout] at hclosing hfirst
    simp only [reduceCtorEq, if_false, List.append_nil]
    cases error with
    | invalidAssignmentTarget kind =>
      rw [show closing = [.rejectedTarget kind] from hclosing]
      exact .rejected kind hout
    | unsupportedNode kind context =>
      rw [show closing = [] from hclosing]
      exact .unsupported kind context hout
    | nestingTooDeep depth max =>
      obtain ⟨rfl, rfl⟩ := firstOffence?_tooDeep hfirst.symm
      obtain ⟨kind, rfl⟩ := hclosing
      exact .tooDeep kind hout

/-! ## The events one by one -/

/-- What stands in the lists of several items stands in the list of one of them, unless it comes
after all of them. -/
theorem split_flatMap {α β : Type} {f : α → List β} {items : List α} {last before after : List β}
    {x : β} (hx : x ∉ last) (h : items.flatMap f ++ last = before ++ x :: after) :
    ∃ items₁ item items₂ front back, items = items₁ ++ item :: items₂ ∧
      f item = front ++ x :: back ∧ before = items₁.flatMap f ++ front ∧
      after = back ++ (items₂.flatMap f ++ last) := by
  induction items generalizing before with
  | nil =>
    have hmem : x ∈ last := by
      rw [List.flatMap_nil, List.nil_append] at h
      simp [h]
    exact absurd hmem hx
  | cons item rest ih =>
    rw [List.flatMap_cons, List.append_assoc] at h
    rcases split_append h with ⟨back, hitem, hafter⟩ | ⟨middle, hbefore, hrest⟩
    · exact ⟨[], item, rest, before, back, rfl, hitem, rfl, hafter⟩
    · obtain ⟨items₁, item', items₂, front, back, hitems, hitem, hmiddle, hafter⟩ := ih hrest
      refine ⟨item :: items₁, item', items₂, front, back, by rw [hitems]; rfl, hitem, ?_, hafter⟩
      rw [hbefore, hmiddle, List.flatMap_cons, List.append_assoc]

namespace Stage

/-- The visits that stages report are those of the occurrences they come to. -/
theorem visits_flatMap (stages : List Stage) :
    (stages.flatMap events).filterMap Event.visit? =
      (arrivals stages).map fun o => (o.node.kind, o.depth) := by
  induction stages with
  | nil => rfl
  | cons stage rest ih =>
    rw [List.flatMap_cons, List.filterMap_append, ih]
    cases stage with
    | shortage instruction depth => rfl
    | arrival o =>
      rcases declarations_cases o.node.declared with ⟨-, hlocals⟩ | ⟨-, hlocals⟩ <;>
        simp [events, hlocals, Event.visit?, arrivals, occurrence?]

/-- The headlines that events of stages have. -/
theorem message_of_mem {stages : List Stage} {event : Event}
    (h : event ∈ stages.flatMap events) :
    event.message = "visit" ∨ event.message = "Block declares locals" ∨
      event.message = "Operand stack underflow" := by
  obtain ⟨stage, -, hevent⟩ := List.mem_flatMap.mp h
  cases stage with
  | shortage instruction depth =>
    rw [events, List.mem_singleton] at hevent
    subst hevent
    exact .inr (.inr rfl)
  | arrival o =>
    rcases List.mem_cons.mp hevent with rfl | hevent
    · exact .inl rfl
    · rcases declarations_cases o.node.declared with ⟨-, hlocals⟩ | ⟨-, hlocals⟩
      · simp [hlocals] at hevent
      · rw [hlocals, List.mem_singleton] at hevent
        subst hevent
        exact .inr (.inl rfl)

variable {stages : List Stage} {last before after : List Event}

/-- No stage begins with the variables of a block. -/
theorem head?_ne_locals (stages : List Stage) (hlocals : ∀ count, .blockLocals count ∉ last)
    (count : Nat) :
    (stages.flatMap events ++ last).head? ≠ some (.blockLocals count) := by
  cases stages with
  | nil => exact fun hhead => hlocals count (List.mem_of_mem_head? hhead)
  | cons stage rest => cases stage <;> simp [events]

/-- A visit is that of the occurrence whose turn it is. The next event is about variables exactly if
the occurrence declares some. -/
theorem at_visit {kind : Kind} {depth : Nat} (hvisit : .visit kind depth ∉ last)
    (hlocals : ∀ count, .blockLocals count ∉ last)
    (h : stages.flatMap events ++ last = before ++ .visit kind depth :: after) :
    ∃ o, (arrivals stages)[(before.filterMap Event.visit?).length]? = some o ∧
      o.node.kind = kind ∧ o.depth = depth ∧
      ∀ count, after.head? = some (.blockLocals count) ↔
        0 < count ∧ o.node.declared.length = count := by
  obtain ⟨stages₁, stage, stages₂, front, back, rfl, hstage, rfl, rfl⟩ := split_flatMap hvisit h
  cases stage with
  | shortage instruction depth => cases front <;> simp [events] at hstage
  | arrival o =>
    -- The visit stands first in its stage, so the stages before it are complete.
    have hfront : front = [] := by
      cases front with
      | nil => rfl
      | cons event front =>
        obtain ⟨-, hrest⟩ := List.cons.inj hstage
        have hmem : .visit kind depth ∈ declarations o.node.declared := by simp [hrest]
        rcases declarations_cases o.node.declared with ⟨-, heq⟩ | ⟨-, heq⟩ <;> simp [heq] at hmem
    subst hfront
    obtain ⟨hroot, rfl⟩ := List.cons.inj hstage
    obtain ⟨hkind, hdepth⟩ := Event.visit.inj hroot
    have harrivals : arrivals (stages₁ ++ .arrival o :: stages₂) =
        arrivals stages₁ ++ o :: arrivals stages₂ := by simp [arrivals, occurrence?]
    refine ⟨o, ?_, hkind, hdepth, fun count => ?_⟩
    · rw [List.append_nil, visits_flatMap, List.length_map, harrivals]
      simp
    · rcases declarations_cases o.node.declared with ⟨hnone, heq⟩ | ⟨hsome, heq⟩
      · rw [heq, List.nil_append, hnone]
        have hhead := head?_ne_locals stages₂ hlocals count
        constructor
        · exact fun h => absurd h hhead
        · omega
      · rw [heq]
        simp only [List.cons_append, List.head?_cons, Option.some.injEq, Event.blockLocals.injEq]
        omega

/-- The variables of a block are reported right after a visit. -/
theorem before_locals {count : Nat} (hlocals : .blockLocals count ∉ last)
    (h : stages.flatMap events ++ last = before ++ .blockLocals count :: after) :
    ∃ kind depth, before.getLast? = some (.visit kind depth) := by
  obtain ⟨stages₁, stage, stages₂, front, back, rfl, hstage, rfl, rfl⟩ := split_flatMap hlocals h
  cases stage with
  | shortage instruction depth => cases front <;> simp [events] at hstage
  | arrival o =>
    cases front with
    | nil => simp [events] at hstage
    | cons event front =>
      obtain ⟨rfl, hrest⟩ := List.cons.inj hstage
      have hfront : front = [] := by
        rcases declarations_cases o.node.declared with ⟨-, heq⟩ | ⟨-, heq⟩
        · simp [heq] at hrest
        · cases front <;> simp [heq] at hrest ⊢
      exact ⟨o.node.kind, o.depth, by simp [hfront]⟩

end Stage

/-- The event comes last, and no event before it has its headline. -/
def Event.ClosesAlone (event : Event) (events : List Event) : Prop :=
  ∃ front, events = front ++ [event] ∧ ∀ other ∈ front, other.message ≠ event.message

/-- The headlines of all events but those that say how a compilation ends. -/
def runningHeadlines : List String :=
  ["Compiling method body", "visit", "Block declares locals", "Operand stack underflow"]

/-- What comes before the end has a headline of its own. -/
theorem Stage.message_mem {kind : Kind} {stages : List Stage} {event : Event}
    (h : event ∈ Event.started kind :: stages.flatMap events) :
    event.message ∈ runningHeadlines := by
  rcases List.mem_cons.mp h with rfl | h
  · simp [Event.message, runningHeadlines]
  · rcases message_of_mem h with hmessage | hmessage | hmessage <;>
      simp [hmessage, runningHeadlines]

namespace Ending

variable {out : Outcome Code} {limit : Nat} {last : List Event}

/-- What a compilation ends with has none of these headlines. -/
theorem message_not_mem (h : Ending out limit last) {event : Event} (hevent : event ∈ last) :
    event.message ∉ runningHeadlines := by
  cases h with
  | unsupported => simp at hevent
  | finished | tooDeep | rejected =>
    rw [List.mem_singleton] at hevent
    subst hevent
    simp [Event.message, runningHeadlines]

/-- No visit is reported at the end. -/
theorem visit_not_mem (h : Ending out limit last) (kind : Kind) (depth : Nat) :
    .visit kind depth ∉ last :=
  fun hmem => h.message_not_mem hmem (by simp [Event.message, runningHeadlines])

/-- No variables are reported at the end. -/
theorem locals_not_mem (h : Ending out limit last) (count : Nat) : .blockLocals count ∉ last :=
  fun hmem => h.message_not_mem hmem (by simp [Event.message, runningHeadlines])

/-- So the end adds nothing to the visits. -/
theorem visits_eq_nil (h : Ending out limit last) : last.filterMap Event.visit? = [] := by
  cases h <;> rfl

/-- The headline of the last event tells how the compilation came out. -/
theorem message_cases (h : Ending out limit last) {event : Event} (hevent : event ∈ last) :
    event.message = "Compiled method body" ∧ out.error? = none ∨
      event.message = "Nesting limit reached" ∧
        (∃ depth max, out.error? = some (.nestingTooDeep depth max)) ∨
      event.message = "Rejected assignment target" ∧
        ∃ kind, out.error? = some (.invalidAssignmentTarget kind) := by
  cases h with
  | unsupported => simp at hevent
  | finished hok =>
    rw [List.mem_singleton.mp hevent]
    exact .inl ⟨rfl, hok⟩
  | tooDeep kind herror =>
    rw [List.mem_singleton.mp hevent]
    exact .inr (.inl ⟨rfl, _, _, herror⟩)
  | rejected kind herror =>
    rw [List.mem_singleton.mp hevent]
    exact .inr (.inr ⟨rfl, _, herror⟩)

/-- A compilation that goes through ends with the size of the code. -/
theorem eq_of_ok (h : Ending out limit last) (hok : out.error? = none) :
    last = [.finished out.sink.length out.sink.maxStack out.sink.maxLocals] := by
  cases h with
  | finished => rfl
  | tooDeep _ herror | rejected _ herror | unsupported _ _ herror => simp [hok] at herror

/-- A compilation that reaches the limit ends with the node beyond it. -/
theorem eq_of_tooDeep (h : Ending out limit last) {depth max : Nat}
    (htooDeep : out.error? = some (.nestingTooDeep depth max)) :
    ∃ kind, last = [.nestingLimit kind (limit + 1)] := by
  cases h with
  | tooDeep kind => exact ⟨kind, rfl⟩
  | finished herror | rejected _ herror | unsupported _ _ herror => simp [htooDeep] at herror

/-- A compilation that refuses a left side ends with it. -/
theorem eq_of_rejected (h : Ending out limit last) {kind : Kind}
    (hrejected : out.error? = some (.invalidAssignmentTarget kind)) :
    last = [.rejectedTarget kind] := by
  cases h with
  | rejected kind' herror =>
    obtain rfl : kind = kind' := by simpa [hrejected] using herror
    rfl
  | finished herror | tooDeep _ herror | unsupported _ _ herror => simp [hrejected] at herror

end Ending

namespace Tale

variable {e : Expr} {limit : Nat} {out : Outcome Code} {stages : List Stage} {last : List Event}

/-- The visits are those of the stages. -/
theorem visits_eq (h : Tale e limit out stages last) :
    out.events.toList.filterMap Event.visit? =
      (Stage.arrivals stages).map fun o => (o.node.kind, o.depth) := by
  rw [h.events_eq, List.filterMap_cons_none rfl, List.filterMap_append, Stage.visits_flatMap,
    h.ending.visits_eq_nil, List.append_nil]

/-- An event that has not the headline of a stage is the last one. -/
theorem mem_last (h : Tale e limit out stages last) {event : Event}
    (hmem : event ∈ out.events.toList) (hmessage : event.message ∉ runningHeadlines) :
    event ∈ last := by
  rw [h.events_eq, ← List.cons_append, List.mem_append] at hmem
  exact hmem.resolve_left fun hfront => hmessage (Stage.message_mem hfront)

/-- What is told at the end is among the events. -/
theorem mem_of_mem_last (h : Tale e limit out stages last) {event : Event} (hmem : event ∈ last) :
    event ∈ out.events.toList := by
  rw [h.events_eq]
  simp [hmem]

/-- What a compilation ends with is the only event with its headline. -/
theorem closesAlone {event : Event} (h : Tale e limit out stages [event]) :
    event.ClosesAlone out.events.toList := by
  refine ⟨.started e.kind :: stages.flatMap Stage.events, by rw [h.events_eq]; rfl, ?_⟩
  intro other hother heq
  have hrunning := Stage.message_mem hother
  rw [heq] at hrunning
  exact h.ending.message_not_mem (List.mem_singleton_self event) hrunning

/-- The limit is reported exactly if it is the error. -/
theorem limit_reported_iff (h : Tale e limit out stages last) :
    (∃ event ∈ out.events.toList, event.message = "Nesting limit reached") ↔
      ∃ depth max, out.error? = some (.nestingTooDeep depth max) := by
  constructor
  · rintro ⟨event, hmem, hmessage⟩
    have hevent := h.mem_last hmem (by simp [hmessage, runningHeadlines])
    rcases h.ending.message_cases hevent with ⟨heq, -⟩ | ⟨-, herror⟩ | ⟨heq, -⟩
    · simp [hmessage] at heq
    · exact herror
    · simp [hmessage] at heq
  · rintro ⟨depth, max, herror⟩
    obtain ⟨kind, rfl⟩ := h.ending.eq_of_tooDeep herror
    exact ⟨_, h.mem_of_mem_last (List.mem_singleton_self _), rfl⟩

/-- A target is reported exactly if refusing it is the error. -/
theorem target_reported_iff (h : Tale e limit out stages last) :
    (∃ event ∈ out.events.toList, event.message = "Rejected assignment target") ↔
      ∃ kind, out.error? = some (.invalidAssignmentTarget kind) := by
  constructor
  · rintro ⟨event, hmem, hmessage⟩
    have hevent := h.mem_last hmem (by simp [hmessage, runningHeadlines])
    rcases h.ending.message_cases hevent with ⟨heq, -⟩ | ⟨heq, -⟩ | ⟨-, herror⟩
    · simp [hmessage] at heq
    · simp [hmessage] at heq
    · exact herror
  · rintro ⟨kind, herror⟩
    obtain rfl := h.ending.eq_of_rejected herror
    exact ⟨_, h.mem_of_mem_last (List.mem_singleton_self _), rfl⟩

/-- The size of the code is reported last if there is code. -/
theorem getLast?_of_ok (h : Tale e limit out stages last) (hok : out.error? = none) :
    out.events.toList.getLast? =
      some (.finished out.sink.length out.sink.maxStack out.sink.maxLocals) := by
  rw [h.events_eq, h.ending.eq_of_ok hok, ← List.cons_append, List.getLast?_concat]

/-- No size is reported if there is no code. -/
theorem message_ne_of_error (h : Tale e limit out stages last) (herror : out.error? ≠ none)
    {event : Event} (hmem : event ∈ out.events.toList) :
    event.message ≠ "Compiled method body" := by
  intro hmessage
  have hevent := h.mem_last hmem (by simp [hmessage, runningHeadlines])
  rcases h.ending.message_cases hevent with ⟨-, hok⟩ | ⟨heq, -⟩ | ⟨heq, -⟩
  · exact herror hok
  · simp [hmessage] at heq
  · simp [hmessage] at heq

/-- A visit is that of the occurrence whose turn it is, and its variables follow. -/
theorem at_visit (h : Tale e limit out stages last) {before after : List Event} {kind : Kind}
    {depth : Nat} (hevents : out.events.toList = before ++ .visit kind depth :: after) :
    ∃ o, e.visited[(before.filterMap Event.visit?).length]? = some o ∧
      o.node.kind = kind ∧ o.depth = depth ∧
      ∀ count, after.head? = some (.blockLocals count) ↔
        0 < count ∧ o.node.declared.length = count := by
  rw [h.events_eq] at hevents
  cases before with
  | nil => simp at hevents
  | cons first before =>
    rw [List.cons_append, List.cons_eq_cons] at hevents
    obtain ⟨rfl, hrest⟩ := hevents
    obtain ⟨o, hturn, ho⟩ :=
      Stage.at_visit (h.ending.visit_not_mem kind depth) h.ending.locals_not_mem hrest
    obtain ⟨later, hvisited⟩ := h.arrivals_prefix
    refine ⟨o, ?_, ho⟩
    obtain ⟨hbound, -⟩ := List.getElem?_eq_some_iff.mp hturn
    rw [List.filterMap_cons_none rfl, ← hvisited, List.getElem?_append_left hbound, hturn]

/-- The variables of a block are reported right after a visit. -/
theorem before_locals (h : Tale e limit out stages last) {before after : List Event} {count : Nat}
    (hevents : out.events.toList = before ++ .blockLocals count :: after) :
    ∃ kind depth, before.getLast? = some (.visit kind depth) := by
  rw [h.events_eq] at hevents
  cases before with
  | nil => simp at hevents
  | cons first before =>
    rw [List.cons_append, List.cons_eq_cons] at hevents
    obtain ⟨kind, depth, hlast⟩ := Stage.before_locals (h.ending.locals_not_mem count) hevents.2
    exact ⟨kind, depth, by simp [List.getLast?_cons, hlast]⟩

end Tale

namespace Expr

/-- The events of a compilation mirror the tree. They begin with the kind of the root. If the method
body compiles, the visits are all occurrences in preorder, the variables that are assigned to apart,
and the events end with the size of the code and of its frame; if not, the visits are the first of
these occurrences, and no size is reported. No visit lies beyond the limit. Reaching the limit and
refusing the target of an assignment are reported exactly if they are the error, once and at the
end. The visit of an occurrence is followed at once by the number of variables that it declares, if
it declares any, and this is reported nowhere else. -/
theorem compile_events_mirror (e : Expr) (limit : Nat) :
    let out := e.compile limit
    let events := out.events.toList
    let visits := events.filterMap Event.visit?
    events.head? = some (.started e.kind) ∧
    (out.error? = none → visits = e.preorder ∧
      events.getLast? = some (.finished out.sink.length out.sink.maxStack out.sink.maxLocals)) ∧
    (out.error? ≠ none → visits <+: e.preorder ∧
      ∀ event ∈ events, event.message ≠ "Compiled method body") ∧
    (∀ kind depth, (kind, depth) ∈ visits → depth ≤ limit) ∧
    ((∃ event ∈ events, event.message = "Nesting limit reached") ↔
      ∃ depth max, out.error? = some (.nestingTooDeep depth max)) ∧
    (∀ depth max, out.error? = some (.nestingTooDeep depth max) →
      ∃ kind, (Event.nestingLimit kind (limit + 1)).ClosesAlone events) ∧
    ((∃ event ∈ events, event.message = "Rejected assignment target") ↔
      ∃ kind, out.error? = some (.invalidAssignmentTarget kind)) ∧
    (∀ kind, out.error? = some (.invalidAssignmentTarget kind) →
      (Event.rejectedTarget kind).ClosesAlone events) ∧
    (∀ before kind depth after, events = before ++ .visit kind depth :: after →
      ∃ o, e.visited[(before.filterMap Event.visit?).length]? = some o ∧
        o.node.kind = kind ∧ o.depth = depth ∧
        ∀ count, after.head? = some (.blockLocals count) ↔
          0 < count ∧ o.node.declared.length = count) ∧
    ∀ before count after, events = before ++ .blockLocals count :: after →
      ∃ kind depth, before.getLast? = some (.visit kind depth) := by
  intro out events visits
  obtain ⟨stages, last, h⟩ := e.compile_tale limit
  have hvisits : visits = (Stage.arrivals stages).map fun o => (o.node.kind, o.depth) := h.visits_eq
  refine ⟨congrArg List.head? h.events_eq, fun hok => ⟨?_, h.getLast?_of_ok hok⟩,
    fun herror => ⟨?_, fun event => h.message_ne_of_error herror⟩, ?_, h.limit_reported_iff, ?_,
    h.target_reported_iff, ?_, fun _ _ _ _ => h.at_visit, fun _ _ _ => h.before_locals⟩
  · rw [hvisits, h.complete hok]
    rfl
  · rw [hvisits]
    exact h.arrivals_prefix.map _
  · intro kind depth hmem
    rw [hvisits, List.mem_map] at hmem
    obtain ⟨o, ho, heq⟩ := hmem
    cases heq
    exact h.within o ho
  · intro depth max herror
    obtain ⟨kind, rfl⟩ := h.ending.eq_of_tooDeep herror
    exact ⟨kind, h.closesAlone⟩
  · intro kind herror
    obtain rfl := h.ending.eq_of_rejected herror
    exact h.closesAlone

end Expr

end MethodBody
