import MethodBody.Proofs.Transformation

/-!
# The frontier of a transformation

A transformer that goes through assignments and field accesses decides at the nodes that it comes to
behind them. The occurrences of these nodes are the frontier of an expression.
`Transformer.frontierCalls` lists what the transformer is called on there, with the places and the
outcomes. A transformer that keeps a log of its calls logs exactly these.
-/

namespace MethodBody

/-- A way from an assignment or a field access to one of its children. -/
inductive Edge where
  | left
  | right
  | target
deriving DecidableEq

/-- A place in an expression, given by the way to it from the root. -/
abbrev Path := List Edge

namespace Expr

/-- Whether a transformation at the frontier goes through the node. -/
def isInner (e : Expr) : Bool :=
  match e.kind with
  | .assign | .member => true
  | _ => false

/-- The node at a place that is reached through assignments and field accesses. -/
def at? : Expr → Path → Option Expr
  | e, [] => some e
  | .assign _ left _, .left :: p => left.at? p
  | .assign _ _ right, .right :: p => right.at? p
  | .member _ target _, .target :: p => target.at? p
  | _, _ => none

/-- The empty path leads to the expression itself. -/
@[simp] theorem at?_nil (e : Expr) : e.at? [] = some e := by
  rw [at?]

/-- A path to the left goes on from the left side of an assignment. -/
@[simp] theorem at?_left (id : NodeId) (left right : Expr) (p : Path) :
    (assign id left right).at? (.left :: p) = left.at? p := by
  rw [at?]

/-- A path to the right goes on from the right side of an assignment. -/
@[simp] theorem at?_right (id : NodeId) (left right : Expr) (p : Path) :
    (assign id left right).at? (.right :: p) = right.at? p := by
  rw [at?]

/-- A path to the target goes on from the target of a field access. -/
@[simp] theorem at?_target (id : NodeId) (target : Expr) (field : Field) (p : Path) :
    (member id target field).at? (.target :: p) = target.at? p := by
  rw [at?]

/-- The places of the assignments and field accesses that are gone through. -/
def inner : Expr → List Path
  | .assign _ left right => [] :: (left.inner.map (.left :: ·) ++ right.inner.map (.right :: ·))
  | .member _ target _ => [] :: target.inner.map (.target :: ·)
  | _ => []

/-- The places where other nodes are come to, from left to right. -/
def frontier : Expr → List Path
  | .assign _ left right => left.frontier.map (.left :: ·) ++ right.frontier.map (.right :: ·)
  | .member _ target _ => target.frontier.map (.target :: ·)
  | _ => [[]]

/-- Induction along the nodes that are gone through. -/
theorem inner_induction {P : Expr → Prop}
    (assign : ∀ id left right, P left → P right → P (.assign id left right))
    (member : ∀ id target field, P target → P (.member id target field))
    (other : ∀ e, e.isInner = false → P e) (e : Expr) : P e := by
  induction e using children_induction with
  | step e ih =>
    cases e with
    | assign id left right =>
      exact assign id left right (ih left (by simp [children])) (ih right (by simp [children]))
    | member id target field => exact member id target field (ih target (by simp [children]))
    | constant | parameter | call | block | arrayIndex | newArray => exact other _ rfl

variable {e : Expr}

/-- A node that is not gone through is its own frontier. -/
theorem frontier_of_not_inner (h : e.isInner = false) : e.frontier = [[]] := by
  cases e with
  | assign | member => simp [isInner, kind] at h
  | constant | parameter | call | block | arrayIndex | newArray => rfl

/-- Nothing is gone through in a node that is not gone through itself. -/
theorem inner_of_not_inner (h : e.isInner = false) : e.inner = [] := by
  cases e with
  | assign | member => simp [isInner, kind] at h
  | constant | parameter | call | block | arrayIndex | newArray => rfl

end Expr

/-- A call at the frontier: the node that is decided on, the workspace that the call started from,
and how it ended. -/
structure Call (ε σ : Type) where
  node : Expr
  start : Workspace σ
  outcome : EStateM.Result (TransformError ε) (Workspace σ) Expr

variable {ε σ : Type}

namespace Call

/-- Whether the call returned the very node that it was given. -/
def kept (c : Call ε σ) : Bool :=
  match c.outcome with
  | .ok e _ => e.same c.node
  | .error _ _ => false

/-- How many nodes the call added to the arena. -/
def made (c : Call ε σ) : Nat :=
  match c.outcome with
  | .ok _ w => w.arena.nodes.size - c.start.arena.nodes.size
  | .error _ w => w.arena.nodes.size - c.start.arena.nodes.size

end Call

/-- Items with their places. -/
abbrev Placed (α : Type) := List (Path × α)

namespace Placed

variable {α : Type} {p : Path} {a : α}

/-- The items with their places seen from one node further up. -/
def under (edge : Edge) (items : Placed α) : Placed α := items.map fun (p, a) => (edge :: p, a)

variable (items : Placed α) (edge : Edge)

/-- What is placed below an edge has a place that begins with the edge. -/
theorem mem_under : (p, a) ∈ items.under edge ↔ ∃ q, p = edge :: q ∧ (q, a) ∈ items := by
  simp only [under, List.mem_map, Prod.exists, Prod.mk.injEq]
  constructor
  · rintro ⟨q, a, hmem, rfl, rfl⟩
    exact ⟨q, rfl, hmem⟩
  · rintro ⟨q, rfl, hmem⟩
    exact ⟨q, a, hmem, rfl, rfl⟩

/-- The places of what is placed below an edge. -/
theorem map_fst_under : (items.under edge).map Prod.fst = (items.map Prod.fst).map (edge :: ·) := by
  simp [under, Function.comp_def]

/-- Where there are no places there are none below an edge. -/
@[simp] theorem under_nil : under edge ([] : Placed α) = [] := rfl

/-- The items themselves stay as they are. -/
@[simp] theorem map_snd_under : (items.under edge).map Prod.snd = items.map Prod.snd := by
  simp [under, Function.comp_def]

end Placed

/-- Calls at the frontier with their places. -/
abbrev Calls (ε σ : Type) := Placed (Call ε σ)

namespace Calls

/-- Whether a call at or below a place returned another node than it was given. -/
def changedBelow (calls : Calls ε σ) (p : Path) : Bool :=
  calls.any fun (q, c) => p.isPrefixOf q && !c.kept

/-- How many nodes the calls added to the arena. -/
def made : Calls ε σ → Nat
  | [] => 0
  | (_, c) :: rest => c.made + made rest

variable (calls rest : Calls ε σ) (edge edge' : Edge)

/-- Nothing changed at all exactly if every call kept its node. -/
theorem changedBelow_nil_iff :
    calls.changedBelow [] = false ↔ ∀ p c, (p, c) ∈ calls → c.kept = true := by
  simp [changedBelow]

/-- A change below a place is one of the first calls or of the rest. -/
@[simp] theorem changedBelow_append (p : Path) :
    changedBelow (calls ++ rest) p = (calls.changedBelow p || rest.changedBelow p) := by
  simp [changedBelow]

/-- A change anywhere below an edge is a change anywhere. -/
@[simp] theorem changedBelow_under_nil :
    changedBelow (calls.under edge) [] = calls.changedBelow [] := by
  simp [changedBelow, Placed.under, Function.comp_def]

/-- A change below a place is seen from above the edge. -/
@[simp] theorem changedBelow_under_self (p : Path) :
    changedBelow (calls.under edge) (edge :: p) = calls.changedBelow p := by
  simp [changedBelow, Placed.under, Function.comp_def]

/-- A change below one edge is no change below another. -/
@[simp] theorem changedBelow_under_of_ne (hne : edge' ≠ edge) (p : Path) :
    changedBelow (calls.under edge) (edge' :: p) = false := by
  simp [changedBelow, Placed.under, hne]

/-- Calls in turn make the nodes that each of them makes. -/
@[simp] theorem made_append : made (calls ++ rest) = calls.made + rest.made := by
  induction calls with
  | nil => simp [made]
  | cons head tail ih =>
    rw [List.cons_append, made, made, ih]
    omega

/-- How many nodes are made does not depend on where the calls stand. -/
@[simp] theorem made_under : made (calls.under edge) = calls.made := by
  induction calls with
  | nil => rfl
  | cons head tail ih => simp [made, ← ih, Placed.under]

end Calls

namespace Transformer

/-- The transformer goes through assignments and field accesses. It may fail there and it may update
its memory, but it leaves the arena as it is, and the only verdict that it comes to is to
descend. -/
def GoesThrough (t : Transformer ε σ) : Prop :=
  ∀ e w verdict w', e.isInner = true → t.judge e w = .ok verdict w' →
    verdict = .descend ∧ w'.arena = w.arena

/-- The calls at the frontier when an expression is transformed, in order. Nothing is called below a
node at which the transformer fails. The right side of an assignment is come to where the left side
ended, and not at all if the left side failed. -/
def frontierCalls (t : Transformer ε σ) : Expr → Workspace σ → Calls ε σ
  | .assign id left right, w =>
    match t.judge (.assign id left right) w with
    | .error _ _ => []
    | .ok _ w₀ =>
      (t.frontierCalls left w₀).under .left ++
        match t.apply left w₀ with
        | .error _ _ => []
        | .ok _ w₁ => (t.frontierCalls right w₁).under .right
  | .member id target field, w =>
    match t.judge (.member id target field) w with
    | .error _ _ => []
    | .ok _ w₀ => (t.frontierCalls target w₀).under .target
  | e, w => [([], ⟨e, w, t.apply e w⟩)]

/-- The only call at a node that is not gone through is on the node itself. -/
theorem frontierCalls_of_not_inner (t : Transformer ε σ) {e : Expr} (h : e.isInner = false)
    (w : Workspace σ) : t.frontierCalls e w = [([], ⟨e, w, t.apply e w⟩)] := by
  cases e with
  | assign | member => simp [Expr.isInner, Expr.kind] at h
  | constant | parameter | call | block | arrayIndex | newArray => rfl

/-- A verdict that settles a node is all there is to its transformation. -/
theorem apply_of_judge_eq_settle {t : Transformer ε σ} {e : Expr} {action : Transform ε σ Expr}
    (h : t.judge e = Verdict.settle <$> action) : t.apply e = action := by
  rw [apply.eq_def, h]
  simp

section GoesThrough

variable {t : Transformer ε σ} (h : t.GoesThrough)

include h

/-- An assignment is transformed on its two sides, in order. -/
theorem GoesThrough.apply_assign (id : NodeId) (left right : Expr) :
    t.apply (.assign id left right) = (do
      let _ ← t.judge (.assign id left right)
      let left' ← t.apply left
      let right' ← t.apply right
      if left'.same left && right'.same right then pure (.assign id left right)
      else Transform.build (Build.assign left' right')) := by
  rw [apply.eq_def]
  funext w
  cases hjudge : t.judge (.assign id left right) w with
  | error error w₀ => rw [Transform.bind_of_error hjudge, Transform.bind_of_error hjudge]
  | ok verdict w₀ =>
    obtain ⟨rfl, -⟩ := h _ w verdict w₀ rfl hjudge
    rw [Transform.bind_of_ok hjudge, Transform.bind_of_ok hjudge]

/-- A field access is transformed on its target. -/
theorem GoesThrough.apply_member (id : NodeId) (target : Expr) (field : Field) :
    t.apply (.member id target field) = (do
      let _ ← t.judge (.member id target field)
      let target' ← t.apply target
      if target'.same target then pure (.member id target field)
      else Transform.build (Build.knownMember target' field)) := by
  rw [apply.eq_def]
  funext w
  cases hjudge : t.judge (.member id target field) w with
  | error error w₀ => rw [Transform.bind_of_error hjudge, Transform.bind_of_error hjudge]
  | ok verdict w₀ =>
    obtain ⟨rfl, -⟩ := h _ w verdict w₀ rfl hjudge
    rw [Transform.bind_of_ok hjudge, Transform.bind_of_ok hjudge]

end GoesThrough

section AtFrontier

variable {hook : Expr → Transform ε σ Expr}

/-- A transformer that asks a hook goes through assignments and field accesses. -/
theorem atFrontier_goesThrough (hook : Expr → Transform ε σ Expr) :
    (atFrontier hook).GoesThrough := by
  intro e w verdict w' hinner hok
  cases e with
  | assign | member =>
    cases hok
    exact ⟨rfl, rfl⟩
  | constant | parameter | call | block | arrayIndex | newArray =>
    simp [Expr.isInner, Expr.kind] at hinner

/-- At the frontier the hook decides. -/
theorem apply_of_not_inner {e : Expr} (h : e.isInner = false) :
    (atFrontier hook).apply e = hook e := by
  cases e with
  | assign | member => simp [Expr.isInner, Expr.kind] at h
  | constant | parameter | call | block | arrayIndex | newArray =>
    exact apply_of_judge_eq_settle rfl

/-- A transformer that asks a hook does nothing at an assignment but to go on with its sides. -/
theorem apply_assign (id : NodeId) (left right : Expr) :
    (atFrontier hook).apply (.assign id left right) = (do
      let left' ← (atFrontier hook).apply left
      let right' ← (atFrontier hook).apply right
      if left'.same left && right'.same right then pure (.assign id left right)
      else Transform.build (Build.assign left' right')) := by
  rw [(atFrontier_goesThrough hook).apply_assign]
  simp [atFrontier]

/-- A transformer that asks a hook does nothing at a field access but to go on with its target. -/
theorem apply_member (id : NodeId) (target : Expr) (field : Field) :
    (atFrontier hook).apply (.member id target field) = (do
      let target' ← (atFrontier hook).apply target
      if target'.same target then pure (.member id target field)
      else Transform.build (Build.knownMember target' field)) := by
  rw [(atFrontier_goesThrough hook).apply_member]
  simp [atFrontier]

end AtFrontier

section Logging

variable {α : Type}

/-- The hook that does the same and also keeps a log of its calls in its memory. -/
def logged (hook : Expr → Transform ε σ Expr) (e : Expr) :
    Transform ε (σ × List (Call ε σ)) Expr := fun w =>
  let start : Workspace σ := ⟨w.arena, w.memory.1⟩
  let log := w.memory.2 ++ [⟨e, start, hook e start⟩]
  match hook e start with
  | .ok e' w' => .ok e' ⟨w'.arena, (w'.memory, log)⟩
  | .error error w' => .error error ⟨w'.arena, (w'.memory, log)⟩

/-- The workspace with a log beside the memory. -/
def withLog (log : List (Call ε σ)) (w : Workspace σ) : Workspace (σ × List (Call ε σ)) :=
  ⟨w.arena, (w.memory, log)⟩

/-- How an action ends if a log is kept beside the memory. -/
def endWithLog (log : List (Call ε σ)) :
    EStateM.Result (TransformError ε) (Workspace σ) α →
      EStateM.Result (TransformError ε) (Workspace (σ × List (Call ε σ))) α
  | .ok a w => .ok a (withLog log w)
  | .error error w => .error error (withLog log w)

/-- The action that does the same and leaves a log beside the memory as it is. -/
def besideLog (action : Transform ε σ α) : Transform ε (σ × List (Call ε σ)) α := fun w =>
  endWithLog w.memory.2 (action ⟨w.arena, w.memory.1⟩)

/-- The transformer that does the same and also keeps a log of its calls at the frontier. -/
def logging (t : Transformer ε σ) : Transformer ε (σ × List (Call ε σ)) where
  judge e := if e.isInner then besideLog (t.judge e) else Verdict.settle <$> logged t.apply e

variable {t : Transformer ε σ}

/-- A call at the frontier is logged once it has ended. -/
theorem logged_apply (hook : Expr → Transform ε σ Expr) (e : Expr) (w : Workspace σ)
    (log : List (Call ε σ)) :
    logged hook e (withLog log w) = endWithLog (log ++ [⟨e, w, hook e w⟩]) (hook e w) := by
  simp only [logged, withLog]
  cases hook e w <;> rfl

/-- A node that is made anew is made anew beside a log as well. -/
theorem build_withLog (action : Build Expr) (w : Workspace σ) (log : List (Call ε σ)) :
    (Transform.build action : Transform ε (σ × List (Call ε σ)) Expr) (withLog log w) =
      endWithLog log ((Transform.build action : Transform ε σ Expr) w) := by
  simp only [Transform.build, withLog]
  cases action w.arena <;> rfl

/-- With a log, an action goes on from where its first part ended, with the log of that part. -/
theorem bind_withLog {β : Type} {x : Transform ε σ α} {f : α → Transform ε σ β}
    {x' : Transform ε (σ × List (Call ε σ)) α} {f' : α → Transform ε (σ × List (Call ε σ)) β}
    {w : Workspace σ} {log mid last : List (Call ε σ)}
    (hx : x' (withLog log w) = endWithLog mid (x w))
    (hok : ∀ a w₁, x w = .ok a w₁ → f' a (withLog mid w₁) = endWithLog last (f a w₁))
    (herror : ∀ error w₁, x w = .error error w₁ → last = mid) :
    (x' >>= f') (withLog log w) = endWithLog last ((x >>= f) w) := by
  cases hrun : x w with
  | ok a w₁ =>
    rw [hrun] at hx
    rw [Transform.bind_of_ok hx, Transform.bind_of_ok hrun]
    exact hok a w₁ hrun
  | error error w₁ =>
    rw [hrun] at hx
    rw [Transform.bind_of_error hx, Transform.bind_of_error hrun, herror error w₁ hrun]
    rfl

/-- Nothing is logged where a transformer with a log goes through. -/
theorem logging_judge_of_inner (t : Transformer ε σ) {e : Expr} (h : e.isInner = true) :
    t.logging.judge e = besideLog (t.judge e) := if_pos h

/-- Elsewhere a transformer with a log settles what the one without a log returns. -/
theorem logging_judge_of_not_inner (t : Transformer ε σ) {e : Expr} (h : e.isInner = false) :
    t.logging.judge e = Verdict.settle <$> logged t.apply e := by
  simp [logging, h]

/-- Keeping a log makes no difference to where a transformer goes through. -/
theorem GoesThrough.logging (h : t.GoesThrough) : t.logging.GoesThrough := by
  intro e w verdict w' hinner hok
  rw [t.logging_judge_of_inner hinner, besideLog] at hok
  cases hjudge : t.judge e ⟨w.arena, w.memory.1⟩ with
  | error error w₀ =>
    rw [hjudge] at hok
    cases hok
  | ok verdict' w₀ =>
    rw [hjudge] at hok
    cases hok
    exact h e _ verdict w₀ hinner hjudge

/-- A transformer that keeps a log of its calls at the frontier transforms as before. Its log grows
by exactly the calls that are listed, whether the transformation fails or not. -/
theorem GoesThrough.apply_logging (h : t.GoesThrough) (e : Expr) (w : Workspace σ)
    (log : List (Call ε σ)) :
    t.logging.apply e (withLog log w) =
      endWithLog (log ++ (t.frontierCalls e w).map Prod.snd) (t.apply e w) := by
  have hjudge (e : Expr) (hinner : e.isInner = true) (w : Workspace σ) (log : List (Call ε σ)) :
      t.logging.judge e (withLog log w) = endWithLog log (t.judge e w) := by
    rw [t.logging_judge_of_inner hinner]
    rfl
  induction e using Expr.inner_induction generalizing w log with
  | other e hother =>
    rw [apply_of_judge_eq_settle (t.logging_judge_of_not_inner hother),
      t.frontierCalls_of_not_inner hother]
    exact logged_apply t.apply e w log
  | member id target field ih =>
    rw [h.logging.apply_member, h.apply_member, frontierCalls]
    refine bind_withLog (hjudge _ rfl w log) (fun _ w₀ hok => ?_) fun error w₀ herror => ?_
    · rw [hok, Placed.map_snd_under]
      refine bind_withLog (ih w₀ log) (fun target' w₁ _ => ?_) fun _ _ _ => rfl
      split
      · rfl
      · exact build_withLog _ w₁ _
    · rw [herror, List.map_nil, List.append_nil]
  | assign id left right ihl ihr =>
    rw [h.logging.apply_assign, h.apply_assign, frontierCalls]
    refine bind_withLog (hjudge _ rfl w log) (fun _ w₀ hok => ?_) fun error w₀ herror => ?_
    · rw [hok, List.map_append, Placed.map_snd_under, ← List.append_assoc]
      refine bind_withLog (ihl w₀ log) (fun left' w₁ hleft => ?_) fun error w₁ hleft => ?_
      · rw [hleft, Placed.map_snd_under]
        refine bind_withLog (ihr w₁ _) (fun right' w₂ _ => ?_) fun _ _ _ => rfl
        split
        · rfl
        · exact build_withLog _ w₂ _
      · rw [hleft, List.map_nil, List.append_nil]
    · rw [herror, List.map_nil, List.append_nil]

/-- To keep a log of the calls at the frontier, the hook itself can keep it. -/
theorem logging_atFrontier (hook : Expr → Transform ε σ Expr) :
    (atFrontier hook).logging = atFrontier (logged hook) := by
  have hjudge (e : Expr) :
      (atFrontier hook).logging.judge e = (atFrontier (logged hook)).judge e := by
    have hlogged (hother : e.isInner = false) :
        (atFrontier hook).logging.judge e = Verdict.settle <$> logged hook e := by
      rw [logging_judge_of_not_inner _ hother]
      unfold logged
      rw [apply_of_not_inner hother]
    cases e with
    | assign | member => rfl
    | constant | parameter | call | block | arrayIndex | newArray => exact hlogged rfl
  exact congrArg Transformer.mk (funext hjudge)

end Logging

end Transformer

end MethodBody
