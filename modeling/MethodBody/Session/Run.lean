import MethodBody.Expr.Printer
import MethodBody.Session.Answer
import MethodBody.Session.Names

/-!
# Running a session

A session holds an arena, the nodes that its steps made, a current recorder with saved copies, and
the last problem met. Commands are carried out in order; one that fails is answered by its failure
and the session goes on.
-/

namespace MethodBody.Session

/-- The state between two commands. -/
structure State where
  arena : Arena
  /-- The node that each step made, if it made one. -/
  made : Array (Option Expr)
  names : Names
  code : Code
  saved : Std.HashMap String Code
  lastProblem : Option Problem

namespace State

/-- The state before the first command. -/
def initial : State := ⟨Arena.empty 0, #[], {}, Code.empty, {}, none⟩

/-- The number of the step under way. -/
def step (s : State) : Nat := s.made.size

/-- Looks up a node. -/
def node (s : State) (previous : Option Expr) : Ref → Except Failure Expr
  | .step index =>
    match s.made[index]? with
    | some (some e) => .ok e
    | _ => .error .missing
  | .previous =>
    match previous with
    | some e => .ok e
    | none => .error .missing

/-- Looks up a list of nodes. -/
def nodes (s : State) (previous : Option Expr) (repeats : List Repeat) :
    Except Failure (List Expr) := do
  let runs ← repeats.mapM fun r => return List.replicate r.times (← s.node previous r.ref)
  return runs.flatten

end State

/-- What a step leaves behind. -/
structure Result where
  state : State
  /-- The node that the step made. -/
  node : Option Expr
  reply : Reply

/-- An answer that makes no node and leaves the state as given. -/
def answer (s : State) (a : Answer) (events : List Event) : Result :=
  ⟨s, none, ⟨a, events⟩⟩

/-- Keeps the problem behind a failure. -/
def State.blame (s : State) : Failure → State
  | .problem p => { s with lastProblem := some p }
  | _ => s

/-- The events that report a failure. -/
def Failure.events : Failure → List Event
  | .problem (.malformed e) => e.event?.toList
  | _ => []

/-- The answer to a failed step. -/
def fail (s : State) (failure : Failure) : Result :=
  answer (s.blame failure) (.failed failure) failure.events

/-- Makes a requested node. The references are looked up before anything is checked. -/
def State.make (s : State) (previous : Option Expr) (request : Request) :
    Except Failure (Expr × State) := do
  let construction ← request.resolve (s.node previous) (s.nodes previous)
  match construction.build s.arena with
  | .ok e arena => .ok (e, { s with arena })
  | .error error _ => .error (.problem (.malformed error))

/-- A single node, named for its step. -/
def build (s : State) (request : Request) (quiet : Bool) : Result :=
  match s.make none request with
  | .error failure => fail s failure
  | .ok (e, s') =>
    let named := { s' with names := s'.names.give e (toString s.step) }
    let text := if quiet then none else some e.text
    ⟨named, some e, ⟨.built e.kind text, []⟩⟩

/-- The rounds of a chain that are left, starting at round `round` from the node `current`. Each
node is named for its round, the last one for the step. -/
def rounds (request : Option Request) :
    Nat → Nat → Expr → State → Except (Failure × Nat × State) (Expr × State)
  | 0, _, current, s => .ok (current, s)
  | left + 1, round, current, s =>
    match request with
    | none => .error (.unreadable, round, s)
    | some r =>
      match s.make (some current) r with
      | .error failure => .error (failure, round, s)
      | .ok (e, s') =>
        let name :=
          if left = 0 then toString s.step else toString s.step ++ "." ++ toString round
        rounds request left (round + 1) e { s' with names := s'.names.give e name }

/-- A chain of nodes. -/
def chain (s : State) (base : Ref) (count : Nat) (request : Option Request) : Result :=
  match s.node none base with
  | .error failure => fail s failure
  | .ok start =>
    match rounds request count 1 start s with
    | .error (failure, round, s') =>
      answer (s'.blame failure) (.failedInRound failure round) failure.events
    | .ok (e, s') => ⟨s', some e, ⟨.chained e.kind (s'.names.nameOf e), []⟩⟩

/-- The answer to a successful transformation: new nodes are named in the order of the shape. -/
def transformed (s : State) (old new : Expr) (visits : Option (List Kind)) (quiet : Bool) :
    Result :=
  let walked := walk s.step new ⟨s.names, 0, #[]⟩
  let text := if quiet then none else some new.text
  ⟨{ s with names := walked.names }, some new,
    ⟨.transformed (new.same old) walked.shape.toList text visits, []⟩⟩

/-- Applies a transformer to a node. The nodes made before a failure stay in the arena, and the
failure does not count as a problem of the session. The functions `visits` and `explain` say what
the transformer's memory adds to the answer. -/
def applyTransformer (s : State) (t : Transformer ε σ) (memory : σ) (e : Expr) (quiet : Bool)
    (visits : σ → Option (List Kind)) (explain : ε → σ → Failure) : Result :=
  match t.apply e ⟨s.arena, memory⟩ with
  | .ok e' workspace =>
    transformed { s with arena := workspace.arena } e e' (visits workspace.memory) quiet
  | .error (.abandoned reason) workspace =>
    answer { s with arena := workspace.arena } (.failed (explain reason workspace.memory)) []
  | .error (.malformed error) workspace =>
    let failure := Failure.problem (.malformed error)
    answer { s with arena := workspace.arena } (.failed failure) failure.events

/-- Transforms a node. -/
def transform (s : State) (e : Expr) (choice : TransformerChoice) (quiet : Bool) : Result :=
  match choice with
  | .identity =>
    let t : Transformer Empty Unit := .identity
    applyTransformer s t () e quiet (fun _ => none) fun reason _ => reason.elim
  | .replaceInt old new =>
    let t : Transformer Empty Unit := .replaceInt old new
    applyTransformer s t () e quiet (fun _ => none) fun reason _ => reason.elim
  | .rejectCalls =>
    let t : Transformer Transformer.CallRefusal Unit := .rejectCalls
    applyTransformer s t () e quiet (fun _ => none) fun refusal _ => .callRefused refusal
  | .policy policy =>
    match policy.resolve (s.node none) with
    | .error failure => fail s failure
    | .ok resolved =>
      applyTransformer s resolved.transformer #[] e quiet (fun visits => some visits.toList)
        fun failure visits => .policy failure visits.toList

/-- Compiles a node as a method body. -/
def compile (s : State) (e : Expr) (maxDepth : Nat) (listing : Bool) : Result :=
  let outcome := e.compile maxDepth
  match outcome.error? with
  | some error =>
    let failure := Failure.problem (.lowering error)
    answer (s.blame failure) (.failed failure) outcome.events.toList
  | none =>
    let code := outcome.sink
    answer s
      (.compiled (.ofCode code) (code.instructions.toList.map Instruction.text)
        (if listing then some code.listing else none))
      outcome.events.toList

/-- Keeps the problem that stopped a lowering. -/
def State.noteLowering (s : State) : Option LowerError → State
  | some error => s.blame (.problem (.lowering error))
  | none => s

/-- Lowers a node into the current recorder. -/
def emit (s : State) (e : Expr) (maxDepth : Nat) : Result :=
  let start := s.code.length
  let outcome := e.lowerInto Code.sink s.code maxDepth
  answer ({ s with code := outcome.sink }.noteLowering outcome.error?)
    (.emitted outcome.error? (.ofCode outcome.sink)
      ((outcome.sink.since start).map Instruction.text))
    outcome.events.toList

/-- Lowers a node into a sink that only counts. -/
def count (s : State) (e : Expr) (maxDepth : Nat) : Result :=
  let outcome := e.lowerInto Tally.sink Tally.zero maxDepth
  answer (s.noteLowering outcome.error?) (.counted outcome.error? outcome.sink)
    outcome.events.toList

/-- Records one instruction. -/
def record (s : State) (request : InstructionRequest) : Result :=
  match request.make with
  | .error error => fail s (.problem (.malformed error))
  | .ok instruction =>
    let (code, events) := Code.sink.accept s.code instruction
    answer { s with code } (.recorded (.ofCode code) instruction) events

/-- A question about one node. -/
def ask (s : State) (ref : Ref) (question : Expr → Result) : Result :=
  match s.node none ref with
  | .error failure => fail s failure
  | .ok e => question e

/-- Carries out a command. -/
def perform (s : State) : Command → Result
  | .build request quiet => build s request quiet
  | .chain base count request => chain s base count request
  | .transform node choice quiet => ask s node fun e => transform s e choice quiet
  | .display node => ask s node fun e => answer s (.text e.text) []
  | .inspect node => ask s node fun e =>
    answer s (.inspected e.kind (s.names.nameOf e) (.ofExpr s.names.nameOf e)) []
  | .same a b => ask s a fun x => ask s b fun y => answer s (.same (x.same y)) []
  | .compareArenas =>
    let other := Arena.empty (s.arena.tag + 1)
    answer s (.arenas (s.arena.sameArena s.arena) (s.arena.sameArena other)) []
  | .compile node maxDepth listing => ask s node fun e => compile s e maxDepth listing
  | .emit node maxDepth => ask s node fun e => emit s e maxDepth
  | .count node maxDepth => ask s node fun e => count s e maxDepth
  | .record instruction => record s instruction
  | .newCode => answer { s with code := Code.empty } (.code (.ofCode Code.empty)) []
  | .list => answer s (.listing s.code.listing) []
  | .save name =>
    answer { s with saved := s.saved.insert name s.code } (.code (.ofCode s.code)) []
  | .load name =>
    match s.saved.get? name with
    | none => fail s .missing
    | some code => answer { s with code } (.code (.ofCode code)) []
  | .compareSaved name =>
    match s.saved.get? name with
    | none => fail s .missing
    | some code => answer s (.equal (code.equal s.code)) []
  | .compareInstructions a b =>
    match s.code.instructions[a]?, s.code.instructions[b]? with
    | some x, some y => answer s (.equal (x.equal y)) []
    | _, _ => fail s .missing
  | .diagnose =>
    match s.lastProblem with
    | none => answer s .noProblem []
    | some problem => answer s (.diagnosis problem.diagnostic) []
  | .render style =>
    match s.lastProblem with
    | none => answer s .noProblem []
    | some problem => answer s (.text (problem.diagnostic.render style)) []

/-- Takes one step. A command that could not be read takes up a step too. -/
def advance (s : State) (command : Option Command) : State × Reply :=
  let result :=
    match command with
    | none => fail s .unreadable
    | some c => perform s c
  ({ result.state with made := result.state.made.push result.node }, result.reply)

/-- The replies to a list of commands. -/
def replies : State → List (Option Command) → List Reply
  | _, [] => []
  | s, command :: rest =>
    let (s', reply) := advance s command
    reply :: replies s' rest

/-- Runs a session from the start. -/
def run (commands : List (Option Command)) : List Reply := replies .initial commands

end MethodBody.Session
