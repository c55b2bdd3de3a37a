import MethodBody.Proofs.Playback

/-!
# What sinks are given

The instructions that an expression is lowered to, and the error that stops it, are those of a fresh
recorder, whatever sink they go to and whatever state it is in. So a sink only ever sees a stream of
instructions that was fixed before, and the streams of several expressions follow one another.
-/

namespace MethodBody

variable {σ : Type}

/-- The instructions that a fresh recorder is given for an expression, up to where it is stopped. -/
def Expr.stream (e : Expr) (limit : Nat) : List Instruction :=
  (e.lowerInto Code.sink Code.empty limit).sink.instructions.toList

/-- The stream is read off the transcript. -/
theorem Expr.stream_eq (e : Expr) (limit : Nat) :
    e.stream limit = (e.transcript limit 0).instructions := by
  rw [stream, lowerInto_eq]
  simp [Code.empty]

/-- Lowers several expressions, each under its own limit, one after the other into one sink. A
failure does not keep the others from being lowered. The errors come in order, then the sink. -/
def Sink.lowerEach (sink : Sink σ) : σ → List (Expr × Nat) → List (Option LowerError) × σ
  | state, [] => ([], state)
  | state, (e, limit) :: rest =>
    let out := e.lowerInto sink state limit
    let (errors, last) := sink.lowerEach out.sink rest
    (out.error? :: errors, last)

/-- The error does not depend on the sink. -/
theorem Expr.error?_lowerInto (e : Expr) (limit : Nat) (sink : Sink σ) (start : σ) :
    (e.lowerInto sink start limit).error? = (e.lowerInto Code.sink Code.empty limit).error? := by
  rw [lowerInto_eq, lowerInto_eq]

/-- A sink ends as if it had been given the stream and nothing else. -/
theorem Expr.sink_lowerInto (e : Expr) (limit : Nat) (sink : Sink σ) (start : σ) :
    (e.lowerInto sink start limit).sink = sink.feed start (e.stream limit) := by
  rw [stream_eq, lowerInto_eq]

/-- Several expressions give their streams one after the other. -/
theorem Sink.lowerEach_eq (sink : Sink σ) (start : σ) (bodies : List (Expr × Nat)) :
    sink.lowerEach start bodies =
      (bodies.map fun (e, limit) => (e.lowerInto Code.sink Code.empty limit).error?,
        sink.feed start (bodies.flatMap fun (e, limit) => e.stream limit)) := by
  induction bodies generalizing start with
  | nil => rfl
  | cons body rest ih =>
    obtain ⟨e, limit⟩ := body
    rw [lowerEach, ih, e.sink_lowerInto, e.error?_lowerInto, List.map_cons, List.flatMap_cons,
      feed_append]

/-- Lowering looks at nothing of the sink. Into every sink and from every state of it, an expression
fails as it does into a fresh recorder, and the sink ends as if it had been given the instructions
of the fresh recorder one by one. A recorder that is already in use keeps what it holds, and the
same instructions follow. Several expressions leave what their separate streams leave in a row. -/
theorem Expr.lowerInto_feeds_fresh_stream (e : Expr) (limit : Nat) (sink : Sink σ) (start : σ)
    (code : Code) (bodies : List (Expr × Nat)) :
    let fresh (e : Expr) (limit : Nat) := e.lowerInto Code.sink Code.empty limit
    let stream (e : Expr) (limit : Nat) := (fresh e limit).sink.instructions.toList
    (e.lowerInto sink start limit).error? = (fresh e limit).error? ∧
      (e.lowerInto sink start limit).sink =
        (stream e limit).foldl (fun state i => (sink.accept state i).1) start ∧
      (e.lowerInto Code.sink code limit).sink.instructions.toList =
        code.instructions.toList ++ stream e limit ∧
      sink.lowerEach start bodies =
        (bodies.map fun (e, limit) => (fresh e limit).error?,
          (bodies.flatMap fun (e, limit) => stream e limit).foldl
            (fun state i => (sink.accept state i).1) start) := by
  refine ⟨e.error?_lowerInto limit sink start, e.sink_lowerInto limit sink start, ?_,
    sink.lowerEach_eq start bodies⟩
  rw [e.sink_lowerInto, Code.instructions_feed]
  rfl

end MethodBody
