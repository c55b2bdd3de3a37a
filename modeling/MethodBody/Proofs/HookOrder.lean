import MethodBody.Proofs.Representation

/-!
# The order of a transformation

A transformation that asks a hook goes through an expression from left to right.
`Transformer.steps` lists what it does on the way: it calls the hook at the places of the frontier,
and it makes a node anew once all below the node is done. Each step starts in the workspace where
the one before ended. A call that fails is the last step, so nothing above its place is made anew,
and the transformation ends as this call did.
-/

namespace MethodBody

namespace Expr

/-- The first place lies on the left side of an assignment and the second on its right side. -/
def LeftOf (p q : Path) : Prop := ∃ r p' q', p = r ++ .left :: p' ∧ q = r ++ .right :: q'

/-- Going down the same edge first keeps the order of places. -/
theorem LeftOf.cons {p q : Path} (h : LeftOf p q) (edge : Edge) :
    LeftOf (edge :: p) (edge :: q) := by
  obtain ⟨r, p', q', rfl, rfl⟩ := h
  exact ⟨edge :: r, p', q', rfl, rfl⟩

/-- The frontier lists its places from left to right, so none of them twice. -/
theorem pairwise_leftOf_frontier (e : Expr) : e.frontier.Pairwise LeftOf := by
  induction e using inner_induction with
  | other e h => simp [frontier_of_not_inner h]
  | member id target field ih =>
    rw [frontier, List.pairwise_map]
    exact ih.imp (·.cons .target)
  | assign id left right ihl ihr =>
    rw [frontier, List.pairwise_append, List.pairwise_map, List.pairwise_map]
    refine ⟨ihl.imp (·.cons .left), ihr.imp (·.cons .right), ?_⟩
    intro p hp q hq
    obtain ⟨p', -, rfl⟩ := List.mem_map.mp hp
    obtain ⟨q', -, rfl⟩ := List.mem_map.mp hq
    exact ⟨[], p', q', rfl, rfl⟩

/-- No other nodes are reached below a node that is not gone through. -/
theorem at?_cons_of_not_inner {e : Expr} (h : e.isInner = false) (edge : Edge) (p : Path) :
    e.at? (edge :: p) = none := by
  cases e with
  | assign | member => simp [isInner, kind] at h
  | constant | parameter | call | block | arrayIndex | newArray => rw [at?] <;> simp

/-- The frontier has all places that are reached through assignments and field accesses and hold
something else. -/
theorem mem_frontier_iff {e : Expr} {p : Path} :
    p ∈ e.frontier ↔ ∃ x, e.at? p = some x ∧ x.isInner = false := by
  induction e using inner_induction generalizing p with
  | other e h =>
    rw [frontier_of_not_inner h, List.mem_singleton]
    cases p with
    | nil => simpa using h
    | cons edge p => simp [at?_cons_of_not_inner h]
  | member id target field ih =>
    rcases p with - | ⟨- | - | -, p⟩
    · simp [frontier, isInner, kind]
    · simp [frontier, at?]
    · simp [frontier, at?]
    · simp [frontier, ih]
  | assign id left right ihl ihr =>
    rcases p with - | ⟨- | - | -, p⟩
    · simp [frontier, isInner, kind]
    · simp [frontier, ihl]
    · simp [frontier, ihr]
    · simp [frontier, at?]

end Expr

variable {ε σ : Type}

/-- The workspace with one more node. -/
def Workspace.add (w : Workspace σ) (node : Expr) : Workspace σ :=
  { w with arena := { w.arena with nodes := w.arena.nodes.push node } }

/-- What a transformation or a call of a hook ends with. -/
abbrev Transform.Result (ε σ : Type) := EStateM.Result (TransformError ε) (Workspace σ) Expr

/-- One thing that a transformation does: it calls the hook, or it makes a node anew. -/
inductive Step (ε σ : Type) where
  | call (c : Call ε σ)
  | remake (node : Expr)

/-- Steps with their places. -/
abbrev Steps (ε σ : Type) := Placed (Step ε σ)

namespace Steps

/-- The calls among the steps. -/
def calls (steps : Steps ε σ) : Calls ε σ :=
  steps.filterMap fun
    | (p, .call c) => some (p, c)
    | (_, .remake _) => none

variable {p : Path} {c : Call ε σ} (steps rest : Steps ε σ) (edge : Edge)

/-- The calls among some steps. -/
theorem mem_calls : (p, c) ∈ steps.calls ↔ (p, .call c) ∈ steps := by
  rw [calls, List.mem_filterMap]
  constructor
  · rintro ⟨⟨q, d | node⟩, hmem, heq⟩
    · cases heq
      exact hmem
    · cases heq
  · exact fun hmem => ⟨(p, .call c), hmem, rfl⟩

/-- Where no step is done no call is made. -/
@[simp] theorem calls_nil : calls ([] : Steps ε σ) = [] := rfl

/-- The calls of steps in turn. -/
@[simp] theorem calls_append : calls (steps ++ rest) = steps.calls ++ rest.calls :=
  List.filterMap_append

/-- Calls below an edge are the calls of steps below it. -/
@[simp] theorem calls_under : calls (steps.under edge) = steps.calls.under edge := by
  induction steps with
  | nil => rfl
  | cons head tail ih =>
    obtain ⟨p, c | node⟩ := head
    · exact congrArg ((edge :: p, c) :: ·) ih
    · exact ih

/-- The step at a node whose children are done, if one of them changed. -/
def renewal (changed : Bool) (node : Expr) : Steps ε σ :=
  if changed then [([], .remake node)] else []

/-- Making a node anew is no call. -/
@[simp] theorem calls_renewal (changed : Bool) (node : Expr) :
    (renewal changed node : Steps ε σ).calls = [] := by
  cases changed <;> rfl

end Steps

namespace Transformer

open Steps (renewal)

/-- How it ends at a node whose children are done. -/
def renewed (changed : Bool) (e node : Expr) (w : Workspace σ) : Transform.Result ε σ :=
  if changed then .ok node (w.add node) else .ok e w

/-- The steps of a transformation, in order. What comes after a failure is not done. -/
def steps (hook : Expr → Transform ε σ Expr) : Expr → Workspace σ → Steps ε σ
  | .assign _ left right, w =>
    (steps hook left w).under .left ++
      match (atFrontier hook).apply left w with
      | .error _ _ => []
      | .ok left' w₁ =>
        (steps hook right w₁).under .right ++
          match (atFrontier hook).apply right w₁ with
          | .error _ _ => []
          | .ok right' w₂ =>
            renewal (!(left'.same left && right'.same right))
              (.assign w₂.arena.nodes.size left' right')
  | .member _ target field, w =>
    (steps hook target w).under .target ++
      match (atFrontier hook).apply target w with
      | .error _ _ => []
      | .ok target' w₁ =>
        renewal (!target'.same target) (.member w₁.arena.nodes.size target' field)
  | e, w => [([], .call ⟨e, w, hook e w⟩)]

variable {hook : Expr → Transform ε σ Expr}

/-- At the frontier there is one step, a call of the hook. -/
theorem steps_of_not_inner {e : Expr} (h : e.isInner = false) (w : Workspace σ) :
    steps hook e w = [([], .call ⟨e, w, hook e w⟩)] := by
  cases e with
  | assign | member => simp [Expr.isInner, Expr.kind] at h
  | constant | parameter | call | block | arrayIndex | newArray => rfl

/-- Whether a node is kept or made anew depends on whether its children are the same. -/
theorem renewed_eq (same : Bool) (e : Expr) (make : NodeId → Expr) (w : Workspace σ) :
    (if same then pure e else Transform.build (Build.node make) : Transform ε σ Expr) w =
      renewed (!same) e (make w.arena.nodes.size) w := by
  cases same <;> rfl

/-- Induction along the steps of a transformation and what it ends with: a call of the hook, a child
that failed, or a node whose children are done. -/
theorem steps_induction {motive : Expr → Workspace σ → Steps ε σ → Transform.Result ε σ → Prop}
    (call : ∀ e w, e.isInner = false → motive e w [([], .call ⟨e, w, hook e w⟩)] (hook e w))
    (left_failed : ∀ id left right w ls error w', motive left w ls (.error error w') →
      motive (.assign id left right) w (ls.under .left) (.error error w'))
    (right_failed : ∀ id left right w ls left' w₁ rs error w', motive left w ls (.ok left' w₁) →
      motive right w₁ rs (.error error w') →
      motive (.assign id left right) w (ls.under .left ++ rs.under .right) (.error error w'))
    (assign : ∀ id left right w ls left' w₁ rs right' w₂ changed node,
      motive left w ls (.ok left' w₁) → motive right w₁ rs (.ok right' w₂) →
      motive (.assign id left right) w (ls.under .left ++ (rs.under .right ++ renewal changed node))
        (renewed changed (.assign id left right) node w₂))
    (target_failed : ∀ id target field w ts error w', motive target w ts (.error error w') →
      motive (.member id target field) w (ts.under .target) (.error error w'))
    (member : ∀ id target field w ts target' w₁ changed node, motive target w ts (.ok target' w₁) →
      motive (.member id target field) w (ts.under .target ++ renewal changed node)
        (renewed changed (.member id target field) node w₁))
    (e : Expr) (w : Workspace σ) : motive e w (steps hook e w) ((atFrontier hook).apply e w) := by
  induction e using Expr.inner_induction generalizing w with
  | other e h =>
    rw [steps_of_not_inner h, apply_of_not_inner h]
    exact call e w h
  | member id target field ih =>
    have htarget := ih w
    rw [steps, apply_member]
    cases hrun : (atFrontier hook).apply target w with
    | error error w₁ =>
      rw [hrun] at htarget
      rw [Transform.bind_of_error hrun, List.append_nil]
      exact target_failed id target field w _ error w₁ htarget
    | ok target' w₁ =>
      rw [hrun] at htarget
      rw [Transform.bind_of_ok hrun, Build.knownMember, renewed_eq]
      exact member id target field w _ target' w₁ _ _ htarget
  | assign id left right ihl ihr =>
    have hleft := ihl w
    rw [steps, apply_assign]
    cases hrun : (atFrontier hook).apply left w with
    | error error w₁ =>
      rw [hrun] at hleft
      rw [Transform.bind_of_error hrun, List.append_nil]
      exact left_failed id left right w _ error w₁ hleft
    | ok left' w₁ =>
      have hright := ihr w₁
      rw [hrun] at hleft
      rw [Transform.bind_of_ok hrun]
      simp only
      cases hrun' : (atFrontier hook).apply right w₁ with
      | error error w₂ =>
        rw [hrun'] at hright
        rw [Transform.bind_of_error hrun', List.append_nil]
        exact right_failed id left right w _ left' w₁ _ error w₂ hleft hright
      | ok right' w₂ =>
        rw [hrun'] at hright
        rw [Transform.bind_of_ok hrun', Build.assign, renewed_eq]
        exact assign id left right w _ left' w₁ _ right' w₂ _ _ hleft hright

/-- The steps call the hook at the frontier. -/
theorem calls_steps (e : Expr) (w : Workspace σ) :
    (steps hook e w).calls = (atFrontier hook).frontierCalls e w := by
  have hjudge (e : Expr) (hinner : e.isInner = true) (w : Workspace σ) :
      (atFrontier hook).judge e w = .ok .descend w := by
    cases e with
    | assign | member => rfl
    | constant | parameter | call | block | arrayIndex | newArray =>
      simp [Expr.isInner, Expr.kind] at hinner
  induction e using Expr.inner_induction generalizing w with
  | other e h =>
    rw [steps_of_not_inner h, frontierCalls_of_not_inner _ h, apply_of_not_inner h]
    rfl
  | member id target field ih =>
    rw [steps, frontierCalls, hjudge _ rfl, Steps.calls_append, Steps.calls_under, ih]
    cases (atFrontier hook).apply target w <;> simp
  | assign id left right ihl ihr =>
    rw [steps, frontierCalls, hjudge _ rfl, Steps.calls_append, Steps.calls_under, ihl]
    simp only
    cases (atFrontier hook).apply left w with
    | error error w₁ => rfl
    | ok left' w₁ =>
      simp only [Steps.calls_append, Steps.calls_under, ihr]
      cases (atFrontier hook).apply right w₁ <;> simp

end Transformer

/-- Whether the call failed. -/
def Call.failed (c : Call ε σ) : Bool :=
  match c.outcome with
  | .ok _ _ => false
  | .error _ _ => true

/-- A call failed if it ended with an error. -/
theorem Call.failed_iff {c : Call ε σ} :
    c.failed = true ↔ ∃ error w', c.outcome = .error error w' := by
  unfold failed
  cases c.outcome <;> simp

/-- The error, if any, and the workspace that is left. -/
def ending : Transform.Result ε σ → Option (TransformError ε) × Workspace σ
  | .ok _ w => (none, w)
  | .error error w => (some error, w)

/-- A run ended with an error if that is its outcome. -/
theorem ending_eq_some_iff {outcome : Transform.Result ε σ} {error : TransformError ε}
    {w' : Workspace σ} :
    ending outcome = (some error, w') ↔ outcome = .error error w' := by
  cases outcome <;> simp [ending]

/-- Steps that are done one after the other, from a workspace on. A call of the hook is given the
workspace as it is, and after one that fails nothing is done. A node that is made anew is added to
the arena. -/
inductive Threads (hook : Expr → Transform ε σ Expr) :
    Workspace σ → Steps ε σ → Option (TransformError ε) × Workspace σ → Prop where
  | nil (w : Workspace σ) : Threads hook w [] (none, w)
  | call {p : Path} {e e' : Expr} {w w₁ : Workspace σ} {rest : Steps ε σ}
      {last : Option (TransformError ε) × Workspace σ} (hok : hook e w = .ok e' w₁)
      (h : Threads hook w₁ rest last) : Threads hook w ((p, .call ⟨e, w, hook e w⟩) :: rest) last
  | failed {p : Path} {e : Expr} {w w' : Workspace σ} {error : TransformError ε}
      (herror : hook e w = .error error w') :
      Threads hook w [(p, .call ⟨e, w, hook e w⟩)] (some error, w')
  | remake {p : Path} {node : Expr} {w : Workspace σ} {rest : Steps ε σ}
      {last : Option (TransformError ε) × Workspace σ} (h : Threads hook (w.add node) rest last) :
      Threads hook w ((p, .remake node) :: rest) last

namespace Threads

variable {hook : Expr → Transform ε σ Expr} {w w₁ : Workspace σ} {xs ys : Steps ε σ}
  {last : Option (TransformError ε) × Workspace σ}

/-- Steps in turn are threaded if the second begin where the first end without an error. -/
theorem append (hxs : Threads hook w xs (none, w₁)) (hys : Threads hook w₁ ys last) :
    Threads hook w (xs ++ ys) last := by
  generalize hmid : (none, w₁) = mid at hxs
  induction hxs with
  | nil =>
    cases hmid
    exact hys
  | call hok _ ih => exact .call hok (ih hmid)
  | failed => cases hmid
  | remake _ ih => exact .remake (ih hmid)

/-- Steps are threaded wherever they stand. -/
theorem under (h : Threads hook w xs last) (edge : Edge) :
    Threads hook w (xs.under edge) last := by
  induction h with
  | nil w => exact .nil w
  | call hok _ ih => exact .call hok ih
  | failed herror => exact .failed herror
  | remake _ ih => exact .remake ih

/-- Making a node anew, or keeping it, is a thread of at most one step. -/
theorem renewal (changed : Bool) (e node : Expr) (w : Workspace σ) :
    Threads hook w (Steps.renewal changed node)
      (ending (Transformer.renewed changed e node w : Transform.Result ε σ)) := by
  cases changed with
  | false => exact .nil w
  | true => exact .remake (.nil _)

/-- A call by itself is a thread. -/
theorem single (p : Path) (e : Expr) (w : Workspace σ) :
    Threads hook w [(p, .call ⟨e, w, hook e w⟩)] (ending (hook e w)) := by
  obtain ⟨e', w', hok⟩ | ⟨error, w', herror⟩ :
      (∃ e' w', hook e w = .ok e' w') ∨ ∃ error w', hook e w = .error error w' := by
    cases hook e w <;> simp
  · have hend : ending (hook e w) = (none, w') := by rw [hok, ending]
    rw [hend]
    exact .call hok (.nil w')
  · have hend : ending (hook e w) = (some error, w') := by rw [herror, ending]
    rw [hend]
    exact .failed herror

/-- Either no call failed, or the last step is the only call that did. -/
theorem failure_cases (h : Threads hook w xs last) :
    (last.1 = none ∧ ∀ p c, (p, .call c) ∈ xs → c.failed = false) ∨
      ∃ earlier p c error w', xs = earlier ++ [(p, .call c)] ∧
        (∀ q d, (q, .call d) ∈ earlier → d.failed = false) ∧
        c.outcome = .error error w' ∧ last = (some error, w') := by
  induction h with
  | nil => exact .inl ⟨rfl, by simp⟩
  | @call p e e' w w₁ rest last hok _ ih =>
    have hfirst : (⟨e, w, hook e w⟩ : Call ε σ).failed = false := by simp only [Call.failed, hok]
    rcases ih with ⟨hlast, hrest⟩ | ⟨earlier, q, c, error, w', rfl, hearlier, hc, hlast⟩
    · refine .inl ⟨hlast, fun q d hd => ?_⟩
      rcases List.mem_cons.mp hd with heq | hd
      · cases heq
        exact hfirst
      · exact hrest q d hd
    · refine .inr ⟨_ :: earlier, q, c, error, w', rfl, fun r d hd => ?_, hc, hlast⟩
      rcases List.mem_cons.mp hd with heq | hd
      · cases heq
        exact hfirst
      · exact hearlier r d hd
  | @failed p e w w' error herror =>
    exact .inr ⟨[], p, ⟨e, w, hook e w⟩, error, w', rfl, by simp, herror, rfl⟩
  | remake _ ih =>
    rcases ih with ⟨hlast, hrest⟩ | ⟨earlier, q, c, error, w', rfl, hearlier, hc, hlast⟩
    · exact .inl ⟨hlast, fun q d hd => hrest q d (by simpa using hd)⟩
    · exact .inr ⟨_ :: earlier, q, c, error, w', rfl,
        fun r d hd => hearlier r d (by simpa using hd), hc, hlast⟩

/-- A call that fails is the last step, and all ends with its error in the workspace it left. -/
theorem of_error (h : Threads hook w xs last) {p : Path} {c : Call ε σ} {error : TransformError ε}
    {w' : Workspace σ} (hc : (p, .call c) ∈ xs) (herror : c.outcome = .error error w') :
    last = (some error, w') ∧ ∃ earlier, xs = earlier ++ [(p, .call c)] := by
  have hfailed : c.failed = true := Call.failed_iff.mpr ⟨error, w', herror⟩
  rcases h.failure_cases with ⟨-, hnone⟩ | ⟨earlier, q, d, error', w'', rfl, hearlier, hd, hlast⟩
  · simp [hnone p c hc] at hfailed
  · rcases List.mem_append.mp hc with hc | hc
    · simp [hearlier p c hc] at hfailed
    · cases List.mem_singleton.mp hc
      rw [herror] at hd
      cases hd
      exact ⟨hlast, earlier, rfl⟩

/-- If it ends with an error then a call failed. -/
theorem exists_failed (h : Threads hook w xs last) (hlast : last.1 ≠ none) :
    ∃ p c, (p, .call c) ∈ xs ∧ c.failed = true := by
  rcases h.failure_cases with ⟨hnone, -⟩ | ⟨earlier, q, d, error, w', rfl, -, hd, -⟩
  · exact absurd hnone hlast
  · exact ⟨q, d, by simp, Call.failed_iff.mpr ⟨error, w', hd⟩⟩

end Threads

/-- The nodes that were there before the call are there after it, at their positions. -/
def Call.KeepsNodes (c : Call ε σ) : Prop :=
  ∀ (i : Nat) (x : Expr), c.start.arena.nodes[i]? = some x →
    (ending c.outcome).2.arena.nodes[i]? = some x

/-- Making nodes anew does not change any node, so all nodes stay if the calls let them stay. -/
theorem Threads.getElem?_nodes {hook : Expr → Transform ε σ Expr} {w : Workspace σ}
    {xs : Steps ε σ} {last : Option (TransformError ε) × Workspace σ}
    (h : Threads hook w xs last) (hkeeps : ∀ p c, (p, .call c) ∈ xs → c.KeepsNodes) {i : Nat}
    {x : Expr} (hx : w.arena.nodes[i]? = some x) : last.2.arena.nodes[i]? = some x := by
  induction h with
  | nil => exact hx
  | @call p e e' w w₁ rest last hok _ ih =>
    have hnext := hkeeps p ⟨e, w, hook e w⟩ (by simp) i x hx
    simp only [hok, ending] at hnext
    exact ih (fun q c hc => hkeeps q c (List.mem_cons_of_mem _ hc)) hnext
  | @failed p e w w' error herror =>
    have hnext := hkeeps p ⟨e, w, hook e w⟩ (by simp) i x hx
    simpa only [herror, ending] using hnext
  | @remake p node w rest last _ ih =>
    refine ih (fun q c hc => hkeeps q c (List.mem_cons_of_mem _ hc)) ?_
    have hi : i < w.arena.nodes.size := (Array.getElem?_eq_some_iff.mp hx).1
    rw [Workspace.add, Array.getElem?_push_lt hi, ← Array.getElem?_eq_getElem hi, hx]

namespace Transformer

/-- The hook was called at every place of the frontier, and did not fail. -/
def Completed (e : Expr) (calls : Calls ε σ) : Prop :=
  calls.map Prod.fst = e.frontier ∧ ∀ p c, (p, c) ∈ calls → c.failed = false

/-- The hook was called at every place of the frontier at or below a given one, and did not fail
there. -/
def DoneBelow (e : Expr) (calls : Calls ε σ) (p : Path) : Prop :=
  (∀ q ∈ e.frontier, p <+: q → q ∈ calls.map Prod.fst) ∧
    ∀ q c, (q, c) ∈ calls → p <+: q → c.failed = false

variable {e : Expr} {calls : Calls ε σ} {p : Path}

/-- If all of the frontier was called on, so was all below any place. -/
theorem Completed.doneBelow (h : Completed e calls) (p : Path) : DoneBelow e calls p :=
  ⟨fun _ hq _ => h.1 ▸ hq, fun q c hc _ => h.2 q c hc⟩

/-- What is done below an edge is done above it. -/
theorem DoneBelow.lift (h : DoneBelow e calls p) (edge : Edge) {x : Expr} {all : Calls ε σ}
    (hfrontier : ∀ q, edge :: q ∈ x.frontier → q ∈ e.frontier)
    (hcalls : ∀ q c, (edge :: q, c) ∈ all ↔ (q, c) ∈ calls) : DoneBelow x all (edge :: p) := by
  constructor
  · intro q hq hpq
    obtain ⟨t, rfl⟩ := hpq
    obtain ⟨⟨q, c⟩, hc, hq'⟩ := List.mem_map.mp (h.1 (p ++ t) (hfrontier _ hq) ⟨t, rfl⟩)
    cases hq'
    exact List.mem_map.mpr ⟨(edge :: (p ++ t), c), (hcalls _ _).mpr hc, rfl⟩
  · intro q c hc hpq
    obtain ⟨t, rfl⟩ := hpq
    exact h.2 (p ++ t) c ((hcalls _ _).mp hc) ⟨t, rfl⟩

/-- The frontier of an assignment is that of its sides. -/
theorem Completed.assign {left right : Expr} {ls rs : Calls ε σ} (hl : Completed left ls)
    (hr : Completed right rs) (id : NodeId) :
    Completed (.assign id left right) (ls.under .left ++ rs.under .right) := by
  refine ⟨by simp [Expr.frontier, Placed.map_fst_under, hl.1, hr.1], fun p c hc => ?_⟩
  rcases List.mem_append.mp hc with hc | hc
  · obtain ⟨q, -, hq⟩ := (Placed.mem_under _ _).mp hc
    exact hl.2 q c hq
  · obtain ⟨q, -, hq⟩ := (Placed.mem_under _ _).mp hc
    exact hr.2 q c hq

/-- The frontier of a field access is that of its target. -/
theorem Completed.member {target : Expr} {ts : Calls ε σ} (ht : Completed target ts) (id : NodeId)
    (field : Field) : Completed (.member id target field) (ts.under .target) := by
  refine ⟨by simp [Expr.frontier, Placed.map_fst_under, ht.1], fun p c hc => ?_⟩
  obtain ⟨q, -, hq⟩ := (Placed.mem_under _ _).mp hc
  exact ht.2 q c hq

/-- What a step has to do with the node at its place. -/
structure Tracks (e : Expr) (steps : Steps ε σ) : Prop where
  /-- A call is given the node at its place. -/
  given : ∀ p c, (p, .call c) ∈ steps → e.at? p = some c.node
  /-- An assignment or field access is made anew, once all below it is done. -/
  remade : ∀ p node, (p, .remake node) ∈ steps →
    (∃ x, e.at? p = some x ∧ x.isInner = true) ∧ DoneBelow e steps.calls p

namespace Tracks

/-- No steps keep every order. -/
theorem nil (e : Expr) : Tracks e ([] : Steps ε σ) := ⟨by simp, by simp⟩

/-- The steps of the right side follow all of those of the left side. -/
theorem assign {left right : Expr} {ls rs : Steps ε σ} (hl : Tracks left ls) (hr : Tracks right rs)
    (id : NodeId) : Tracks (.assign id left right) (ls.under .left ++ rs.under .right) := by
  constructor
  · intro p c hc
    rcases List.mem_append.mp hc with hc | hc
    · obtain ⟨q, rfl, hq⟩ := (Placed.mem_under _ _).mp hc
      simpa using hl.given q c hq
    · obtain ⟨q, rfl, hq⟩ := (Placed.mem_under _ _).mp hc
      simpa using hr.given q c hq
  · intro p node hp
    rcases List.mem_append.mp hp with hp | hp
    · obtain ⟨q, rfl, hq⟩ := (Placed.mem_under _ _).mp hp
      obtain ⟨hinner, hdone⟩ := hl.remade q node hq
      exact ⟨by simpa using hinner,
        hdone.lift .left (by simp [Expr.frontier]) (by simp [Placed.mem_under])⟩
    · obtain ⟨q, rfl, hq⟩ := (Placed.mem_under _ _).mp hp
      obtain ⟨hinner, hdone⟩ := hr.remade q node hq
      exact ⟨by simpa using hinner,
        hdone.lift .right (by simp [Expr.frontier]) (by simp [Placed.mem_under])⟩

/-- The steps of a field access are those of its target. -/
theorem member {target : Expr} {ts : Steps ε σ} (ht : Tracks target ts) (id : NodeId)
    (field : Field) : Tracks (.member id target field) (ts.under .target) := by
  constructor
  · intro p c hc
    obtain ⟨q, rfl, hq⟩ := (Placed.mem_under _ _).mp hc
    simpa using ht.given q c hq
  · intro p node hp
    obtain ⟨q, rfl, hq⟩ := (Placed.mem_under _ _).mp hp
    obtain ⟨hinner, hdone⟩ := ht.remade q node hq
    exact ⟨by simpa using hinner,
      hdone.lift .target (by simp [Expr.frontier]) (by simp [Placed.mem_under])⟩

/-- When all below a node is done, the node itself may be made anew. -/
theorem renewal {steps : Steps ε σ} (h : Tracks e steps) (hinner : e.isInner = true)
    (hdone : Completed e steps.calls) (changed : Bool) (node : Expr) :
    Tracks e (steps ++ Steps.renewal changed node) := by
  cases changed with
  | false => simpa [Steps.renewal] using h
  | true =>
    constructor
    · intro p c hc
      exact h.given p c (by simpa [Steps.renewal] using hc)
    · intro p x hp
      rw [Steps.calls_append, Steps.calls_renewal, List.append_nil]
      rcases List.mem_append.mp hp with hp | hp
      · exact h.remade p x hp
      · cases List.mem_singleton.mp hp
        exact ⟨⟨e, e.at?_nil, hinner⟩, hdone.doneBelow []⟩

end Tracks

/-- How far the steps of a transformation get. -/
structure Proceeds (e : Expr) (steps : Steps ε σ) (outcome : Transform.Result ε σ) : Prop
    extends Tracks e steps where
  /-- The hook is called at the places of the frontier, in order. -/
  places : steps.calls.map Prod.fst <+: e.frontier
  /-- It is called at all of them if nothing fails. -/
  completed : ∀ e' w', outcome = .ok e' w' → Completed e steps.calls

/-- Steps that call on all of the frontier proceed, however they end. -/
theorem Proceeds.of_completed {steps : Steps ε σ} {outcome : Transform.Result ε σ}
    (h : Tracks e steps) (hdone : Completed e steps.calls) : Proceeds e steps outcome :=
  ⟨h, hdone.1 ▸ List.prefix_rfl, fun _ _ _ => hdone⟩

/-- The steps of a transformation proceed from left to right and from the frontier up. -/
theorem proceeds_steps (hook : Expr → Transform ε σ Expr) (e : Expr) (w : Workspace σ) :
    Proceeds e (steps hook e w) ((atFrontier hook).apply e w) := by
  refine steps_induction (motive := fun e _ steps outcome => Proceeds e steps outcome)
    ?call ?left_failed ?right_failed ?assign ?target_failed ?member e w
  case call =>
    intro e w h
    refine ⟨⟨?_, by simp⟩, by simp [Steps.calls, Expr.frontier_of_not_inner h], ?_⟩
    · intro p c hc
      cases List.mem_singleton.mp hc
      exact e.at?_nil
    · intro e' w' hok
      simp [Completed, Steps.calls, Expr.frontier_of_not_inner h, Call.failed, hok]
  case left_failed =>
    intro id left right w ls error w' hl
    refine ⟨by simpa using hl.toTracks.assign (.nil right) id, ?_, by simp⟩
    rw [Steps.calls_under, Placed.map_fst_under, Expr.frontier]
    exact (hl.places.map _).trans (List.prefix_append _ _)
  case right_failed =>
    intro id left right w ls left' w₁ rs error w' hl hr
    refine ⟨hl.toTracks.assign hr.toTracks id, ?_, by simp⟩
    rw [Steps.calls_append, Steps.calls_under, Steps.calls_under, List.map_append,
      Placed.map_fst_under, Placed.map_fst_under, (hl.completed left' w₁ rfl).1, Expr.frontier]
    exact (List.prefix_append_right_inj _).mpr (hr.places.map _)
  case assign =>
    intro id left right w ls left' w₁ rs right' w₂ changed node hl hr
    have hdone := (hl.completed left' w₁ rfl).assign (hr.completed right' w₂ rfl) id
    rw [← List.append_assoc]
    refine .of_completed ((hl.toTracks.assign hr.toTracks id).renewal rfl ?_ changed node) ?_
    · simpa using hdone
    · simpa using hdone
  case target_failed =>
    intro id target field w ts error w' ht
    refine ⟨ht.toTracks.member id field, ?_, by simp⟩
    rw [Steps.calls_under, Placed.map_fst_under, Expr.frontier]
    exact ht.places.map _
  case member =>
    intro id target field w ts target' w₁ changed node ht
    have hdone := (ht.completed target' w₁ rfl).member id field
    refine .of_completed ((ht.toTracks.member id field).renewal rfl ?_ changed node) ?_
    · simpa using hdone
    · simpa using hdone

/-- The steps are done one after the other, and end as the transformation does. -/
theorem threads_steps (hook : Expr → Transform ε σ Expr) (e : Expr) (w : Workspace σ) :
    Threads hook w (steps hook e w) (ending ((atFrontier hook).apply e w)) := by
  refine steps_induction (motive := fun _ w steps outcome => Threads hook w steps (ending outcome))
    ?call ?left_failed ?right_failed ?assign ?target_failed ?member e w
  case call => exact fun e w _ => .single [] e w
  case left_failed => exact fun _ _ _ _ _ _ _ hl => hl.under .left
  case right_failed =>
    exact fun _ _ _ _ _ _ _ _ _ _ hl hr => (hl.under .left).append (hr.under .right)
  case assign =>
    intro id left right w ls left' w₁ rs right' w₂ changed node hl hr
    exact (hl.under .left).append ((hr.under .right).append (.renewal changed _ node w₂))
  case target_failed => exact fun _ _ _ _ _ _ _ ht => ht.under .target
  case member =>
    intro id target field w ts target' w₁ changed node ht
    exact (ht.under .target).append (.renewal changed _ node w₁)

/-- However an honest transformation ends, the nodes are where they were. -/
theorem Honest.getElem?_ending {t : Transformer ε σ} {knows : Workspace σ → Prop}
    (h : t.Honest knows) {w : Workspace σ} (hreach : w.arena.Reachable) (hknows : knows w)
    (he : e ∈ w.arena.nodes) {i : Nat} {x : Expr} (hx : w.arena.nodes[i]? = some x) :
    (ending (t.apply e w)).2.arena.nodes[i]? = some x := by
  obtain ⟨hok, herror⟩ := Transform.ends_iff.mp (h.apply_grows h.grows e w hreach hknows he)
  cases hrun : t.apply e w with
  | ok e' w' => exact (hok e' w' hrun).1.getElem? hx
  | error error w' => exact (herror error w' hrun).getElem? hx

/-- How a transformation goes that asks a hook at the frontier: its steps and what it ends with. -/
structure Orderly (hook : Expr → Transform ε σ Expr) (e : Expr) (w : Workspace σ)
    (steps : Steps ε σ) (outcome : Transform.Result ε σ) : Prop
    extends Proceeds e steps outcome where
  /-- The calls are those that the hook logs, if it keeps a log. -/
  logs : ∀ log, (atFrontier (logged hook)).apply e (withLog log w) =
    endWithLog (log ++ steps.calls.map Prod.snd) outcome
  /-- The frontier is what is reached through assignments and field accesses only. -/
  frontier_iff : ∀ p, p ∈ e.frontier ↔ ∃ x, e.at? p = some x ∧ x.isInner = false
  /-- Its places stand from left to right, each of them once. -/
  leftToRight : e.frontier.Pairwise Expr.LeftOf
  /-- Each step starts where the one before ended, with the memory and the nodes it left. -/
  threads : Threads hook w steps (ending outcome)
  /-- A call that fails is the last step, and the transformation ends as this call did. -/
  stops : ∀ p c error w', (p, c) ∈ steps.calls → c.outcome = .error error w' →
    outcome = .error error w' ∧ ∃ earlier, steps = earlier ++ [(p, .call c)]
  /-- Nothing is made anew above a call that fails. -/
  notRemade : ∀ p c, (p, c) ∈ steps.calls → c.failed = true →
    ∀ q node, (q, .remake node) ∈ steps → ¬ q <+: p
  /-- The transformation fails only if a call does. -/
  fails_iff : (∃ error w', outcome = .error error w') ↔
    ∃ p c, (p, c) ∈ steps.calls ∧ c.failed = true
  /-- Nodes that were there before are there afterwards, unless a call changes them. -/
  unchanged : (∀ p c, (p, c) ∈ steps.calls → c.KeepsNodes) →
    ∀ (i : Nat) (x : Expr), w.arena.nodes[i]? = some x →
      (ending outcome).2.arena.nodes[i]? = some x
  /-- An honest hook changes none, since all it can do with the arena is to make more nodes. -/
  unchangedIfHonest : ∀ knows : Workspace σ → Prop, (atFrontier hook).Honest knows →
    w.arena.Reachable → knows w → e ∈ w.arena.nodes →
      ∀ (i : Nat) (x : Expr), w.arena.nodes[i]? = some x →
        (ending outcome).2.arena.nodes[i]? = some x

/-- A transformation calls its hook at the frontier from left to right, until it is through or a
call fails. -/
theorem apply_atFrontier_orderly (hook : Expr → Transform ε σ Expr) (e : Expr) (w : Workspace σ) :
    Orderly hook e w (steps hook e w) ((atFrontier hook).apply e w) := by
  have hproceeds := proceeds_steps hook e w
  have hthreads := threads_steps hook e w
  have hstops : ∀ p c error w', (p, c) ∈ (steps hook e w).calls → c.outcome = .error error w' →
      (atFrontier hook).apply e w = .error error w' ∧
        ∃ earlier, steps hook e w = earlier ++ [(p, .call c)] := by
    intro p c error w' hc herror
    obtain ⟨hend, hlast⟩ := hthreads.of_error ((Steps.mem_calls _).mp hc) herror
    exact ⟨ending_eq_some_iff.mp hend, hlast⟩
  refine ⟨hproceeds, ?_, fun _ => Expr.mem_frontier_iff, e.pairwise_leftOf_frontier, hthreads,
    hstops, ?_, ⟨?_, ?_⟩, ?_, ?_⟩
  · intro log
    rw [calls_steps, ← logging_atFrontier]
    exact (atFrontier_goesThrough hook).apply_logging e w log
  · intro p c hc hfailed q node hq hprefix
    have hdone := (hproceeds.remade q node hq).2.2 p c hc hprefix
    rw [hdone] at hfailed
    cases hfailed
  · rintro ⟨error, w', herror⟩
    obtain ⟨p, c, hc, hfailed⟩ := hthreads.exists_failed (by simp [herror, ending])
    exact ⟨p, c, (Steps.mem_calls _).mpr hc, hfailed⟩
  · rintro ⟨p, c, hc, hfailed⟩
    obtain ⟨error, w', herror⟩ := Call.failed_iff.mp hfailed
    exact ⟨error, w', (hstops p c error w' hc herror).1⟩
  · intro hkeeps i x hx
    exact hthreads.getElem?_nodes (fun p c hc => hkeeps p c ((Steps.mem_calls _).mpr hc)) hx
  · intro knows hhonest hreach hknows he i x hx
    exact hhonest.getElem?_ending hreach hknows he hx

end Transformer

/-- Puts a new constant in the place of the first node it is asked about, and then gives up. -/
def Sample.giveUpLater (_ : Expr) : Transform Unit Bool Expr := fun w =>
  if w.memory then .error (.abandoned ()) w
  else Transform.build (Build.constant (.int 2)) { w with memory := true }

/-- In the sample the field access on the left side is made anew before the call on the right side
fails, and the assignment above both is not. -/
theorem Transformer.apply_atFrontier_orderly_box :
    let w : Workspace Bool := ⟨Sample.box, false⟩
    let done := steps Sample.giveUpLater Sample.write w
    let outcome := (atFrontier Sample.giveUpLater).apply Sample.write w
    ending outcome = (some (.abandoned ()),
        ((⟨Sample.box, true⟩ : Workspace Bool).add (.constant 3 (.int 2))).add Sample.readTwo) ∧
      done.map Prod.fst = [[.left, .target], [.left], [.right]] ∧
      Orderly Sample.giveUpLater Sample.write w done outcome := by
  intro w done outcome
  have hone : (atFrontier Sample.giveUpLater).apply Sample.one = Sample.giveUpLater Sample.one :=
    apply_of_not_inner rfl
  have hread : (atFrontier Sample.giveUpLater).apply Sample.read w = .ok Sample.readTwo
      (((⟨Sample.box, true⟩ : Workspace Bool).add (.constant 3 (.int 2))).add Sample.readTwo) := by
    rw [Sample.read, apply_member, hone]
    rfl
  refine ⟨?_, ?_, apply_atFrontier_orderly Sample.giveUpLater Sample.write w⟩
  · change ending ((atFrontier Sample.giveUpLater).apply (.assign 2 Sample.read Sample.one) w) = _
    rw [apply_assign, Transform.bind_of_ok hread, hone]
    rfl
  · change (steps Sample.giveUpLater (.assign 2 Sample.read Sample.one) w).map _ = _
    rw [steps, hread]
    simp only [hone]
    rw [Sample.read, steps, hone]
    rfl

end MethodBody
