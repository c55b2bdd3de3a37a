import MethodBody.Proofs.Representation
import MethodBody.Transform.Policy

/-!
# What a transformation shares

A transformer that goes through assignments and field accesses decides at the frontier. Only the
places above a node that it replaced there are made anew, each of them once. Whatever lies elsewhere
is the identical node before and after. The transformer is free to keep a memory and to return any
node of the arena, also one that contains the node it was called on. Nodes that are made anew have
identities that no node had before, so they are never mistaken for the nodes they replace.
-/

namespace MethodBody

namespace Expr

/-- Both nodes are assignments, or both are accesses to one and the same field. -/
def SameForm : Expr → Expr → Prop
  | .assign .., .assign .. => True
  | .member _ _ field, .member _ _ field' => field = field'
  | _, _ => False

end Expr

namespace Transformer

variable {ε σ : Type} {t : Transformer ε σ} {w w' w₁ w₂ : Workspace σ} {e e' : Expr}
  {calls : Calls ε σ}

/-- A node with a changed child gets the next free identity, and the arena has one node more.
Otherwise the node keeps its identity, and the arena has no more nodes. -/
structure Renewed (changed : Bool) (id id' : NodeId) (w w' : Workspace σ) : Prop where
  id_eq : id' = if changed then w.arena.nodes.size else id
  size_eq : w'.arena.nodes.size = w.arena.nodes.size + if changed then 1 else 0

/-- A node keeps its identity only if no child has changed, since a new identity was not in use
when the transformation started. -/
theorem Renewed.id_eq_iff {changed : Bool} {id id' : NodeId} (h : Renewed changed id id' w₁ w')
    (hid : id < w.arena.nodes.size) (hsize : w.arena.nodes.size ≤ w₁.arena.nodes.size) :
    id' = id ↔ changed = false := by
  cases changed with
  | false => simpa using h.id_eq
  | true =>
    have hne : id' ≠ id := by
      rw [h.id_eq]
      exact Nat.ne_of_gt (Nat.lt_of_lt_of_le hid hsize)
    simpa using hne

/-- A position that was free before and is not any more is that of the new node. -/
theorem Renewed.of_lt_size {changed : Bool} {id id' : NodeId} (h : Renewed changed id id' w w')
    {i : Nat} (hi : w.arena.nodes.size ≤ i) (hi' : i < w'.arena.nodes.size) :
    changed = true ∧ id' = i := by
  obtain ⟨hid, hsize⟩ := h
  cases changed with
  | false =>
    simp only [Bool.false_eq_true, if_false] at hsize
    omega
  | true =>
    simp only [if_true] at hid hsize
    have heq : w.arena.nodes.size = i := by omega
    exact ⟨rfl, hid.trans heq⟩

/-- A transformation that succeeded, step by step: where it started, the calls at the frontier, what
it gave and where it ended. The memory may change before the children of a node are come to, but
the arena does not. -/
inductive Visited (t : Transformer ε σ) :
    Workspace σ → Expr → Calls ε σ → Expr → Workspace σ → Prop where
  | call {w w' : Workspace σ} {e e' : Expr} (he : e.isInner = false) (hok : t.apply e w = .ok e' w')
      (hsize : w.arena.nodes.size ≤ w'.arena.nodes.size) (hsame : e'.same e = true → e' = e) :
      Visited t w e [([], ⟨e, w, t.apply e w⟩)] e' w'
  | assign {w w₀ w₁ w₂ w' : Workspace σ} {id id' : NodeId} {left left' right right' : Expr}
      {lefts rights : Calls ε σ} (hstart : w₀.arena = w.arena)
      (hleft : Visited t w₀ left lefts left' w₁) (hright : Visited t w₁ right rights right' w₂)
      (hid : id < w₀.arena.nodes.size)
      (hnew : Renewed (!(left'.same left && right'.same right)) id id' w₂ w') :
      Visited t w (.assign id left right) (lefts.under .left ++ rights.under .right)
        (.assign id' left' right') w'
  | member {w w₀ w₁ w' : Workspace σ} {id id' : NodeId} {target target' : Expr} {field : Field}
      {calls : Calls ε σ} (hstart : w₀.arena = w.arena)
      (htarget : Visited t w₀ target calls target' w₁) (hid : id < w₀.arena.nodes.size)
      (hnew : Renewed (!target'.same target) id id' w₁ w') :
      Visited t w (.member id target field) (calls.under .target) (.member id' target' field) w'

/-- Whatever an honest transformer that goes through assignments and field accesses does with
success is made of such steps. -/
theorem Honest.visited {knows : Workspace σ → Prop} (hhonest : t.Honest knows)
    (hthrough : t.GoesThrough) (hreach : w.arena.Reachable) (hknows : knows w)
    (he : e ∈ w.arena.nodes) (hok : t.apply e w = .ok e' w') :
    Visited t w e (t.frontierCalls e w) e' w' := by
  induction e using Expr.inner_induction generalizing w w' e' with
  | other e hother =>
    obtain ⟨hgrows, -, he'⟩ := hhonest.apply_ok hreach hknows he hok
    rw [t.frontierCalls_of_not_inner hother]
    exact .call hother hok hgrows.size_le
      fun hsame => (hreach.grows hgrows).eq_of_same he' (hgrows.mem he) hsame
  | member id target field ih =>
    rw [hthrough.apply_member, Transform.bind_eq_ok_iff] at hok
    obtain ⟨verdict, w₀, hjudge, hok⟩ := hok
    obtain ⟨-, hstart⟩ := hthrough _ w verdict w₀ rfl hjudge
    have hknows₀ := (hhonest.judges _ w verdict w₀ hreach hknows he hjudge).1
    rw [← hstart] at hreach he
    have htarget := (hreach.closed _ he).2 target (by simp [Expr.children])
    rw [Transform.bind_eq_ok_iff] at hok
    obtain ⟨target', w₁, hrun, hend⟩ := hok
    obtain ⟨hgrows, -, htarget'⟩ := hhonest.apply_ok hreach hknows₀ htarget hrun
    have hvisited := ih hreach hknows₀ htarget hrun
    rw [frontierCalls, hjudge]
    by_cases hsame : target'.same target = true
    · -- Nodes of one identity are equal here, so the old node also stands on the new target.
      have heq := (hreach.grows hgrows).eq_of_same htarget' (hgrows.mem htarget) hsame
      rw [if_pos hsame] at hend
      cases hend
      subst heq
      exact .member hstart hvisited (hreach.id_lt_size he) ⟨by simp [hsame], by simp [hsame]⟩
    · rw [if_neg hsame] at hend
      cases hend
      exact .member hstart hvisited (hreach.id_lt_size he) ⟨by simp [hsame], by simp [hsame]⟩
  | assign id left right ihl ihr =>
    rw [hthrough.apply_assign, Transform.bind_eq_ok_iff] at hok
    obtain ⟨verdict, w₀, hjudge, hok⟩ := hok
    obtain ⟨-, hstart⟩ := hthrough _ w verdict w₀ rfl hjudge
    have hknows₀ := (hhonest.judges _ w verdict w₀ hreach hknows he hjudge).1
    rw [← hstart] at hreach he
    have hleft := (hreach.closed _ he).2 left (by simp [Expr.children])
    have hright := (hreach.closed _ he).2 right (by simp [Expr.children])
    rw [Transform.bind_eq_ok_iff] at hok
    obtain ⟨left', w₁, hrun, hrest⟩ := hok
    rw [Transform.bind_eq_ok_iff] at hrest
    obtain ⟨right', w₂, hrun', hend⟩ := hrest
    obtain ⟨hgrows, hknows₁, hleft'⟩ := hhonest.apply_ok hreach hknows₀ hleft hrun
    have hreach₁ := hreach.grows hgrows
    obtain ⟨hgrows', -, hright'⟩ :=
      hhonest.apply_ok hreach₁ hknows₁ (hgrows.mem hright) hrun'
    have hvisited := ihl hreach hknows₀ hleft hrun
    have hvisited' := ihr hreach₁ hknows₁ (hgrows.mem hright) hrun'
    rw [frontierCalls, hjudge]
    simp only [hrun]
    by_cases hsame : (left'.same left && right'.same right) = true
    · obtain ⟨hsame₁, hsame₂⟩ := Bool.and_eq_true_iff.mp hsame
      have heq := hreach₁.eq_of_same hleft' (hgrows.mem hleft) hsame₁
      have heq' :=
        (hreach₁.grows hgrows').eq_of_same hright' (hgrows'.mem (hgrows.mem hright)) hsame₂
      rw [if_pos hsame] at hend
      cases hend
      subst heq heq'
      exact .assign hstart hvisited hvisited' (hreach.id_lt_size he)
        ⟨by simp [hsame], by simp [hsame]⟩
    · rw [if_neg hsame] at hend
      cases hend
      exact .assign hstart hvisited hvisited' (hreach.id_lt_size he)
        ⟨by simp [hsame], by simp [hsame]⟩

namespace Visited

/-- No node is removed on the way. -/
theorem size_le (h : Visited t w e calls e' w') :
    w.arena.nodes.size ≤ w'.arena.nodes.size := by
  induction h with
  | call _ _ hsize => exact hsize
  | assign hstart _ _ _ hnew ihl ihr =>
    have hsize := hnew.size_eq
    rw [hstart] at ihl
    omega
  | member hstart _ _ hnew ih =>
    have hsize := hnew.size_eq
    rw [hstart] at ih
    omega

/-- The outcome is the identical node unless a call returned another node than it was given. -/
theorem same_eq (h : Visited t w e calls e' w') : e'.same e = !calls.changedBelow [] := by
  induction h with
  | call _ hok => simp [Calls.changedBelow, Call.kept, hok]
  | assign _ hleft hright hid hnew ihl ihr =>
    have hkept := hnew.id_eq_iff hid (Nat.le_trans hleft.size_le hright.size_le)
    rw [ihl, ihr] at hkept
    rw [Bool.eq_iff_iff, Expr.same_iff]
    exact hkept.trans (by simp)
  | member _ htarget hid hnew ih =>
    have hkept := hnew.id_eq_iff hid htarget.size_le
    rw [ih] at hkept
    rw [Bool.eq_iff_iff, Expr.same_iff]
    exact hkept.trans (by simp)

/-- An outcome with the same identity is the same node with all that lies below it. -/
theorem eq_of_same (h : Visited t w e calls e' w') (hsame : e'.same e = true) : e' = e := by
  induction h with
  | call _ _ _ heq => exact heq hsame
  | @assign w w₀ w₁ w₂ w' id id' left left' right right' _ _ _ hleft hright hid hnew ihl ihr =>
    have hid' : id' = id := Expr.same_iff.mp hsame
    have hkept := (hnew.id_eq_iff hid (Nat.le_trans hleft.size_le hright.size_le)).mp hid'
    obtain ⟨hsamel, hsamer⟩ : left'.same left = true ∧ right'.same right = true := by
      simpa using hkept
    rw [hid', ihl hsamel, ihr hsamer]
  | @member w w₀ w₁ w' id id' target target' field _ _ htarget hid hnew ih =>
    have hid' : id' = id := Expr.same_iff.mp hsame
    have hkept := (hnew.id_eq_iff hid htarget.size_le).mp hid'
    rw [hid', ih (by simpa using hkept)]

/-- There is a call at each place of the frontier, in order. -/
theorem map_fst_calls (h : Visited t w e calls e' w') : calls.map Prod.fst = e.frontier := by
  induction h with
  | call he => simp [Expr.frontier_of_not_inner he]
  | assign _ _ _ _ _ ihl ihr => simp [Expr.frontier, Placed.map_fst_under, ihl, ihr]
  | member _ _ _ _ ih => simp [Expr.frontier, Placed.map_fst_under, ih]

/-- A call is given the node at its place, and what it returns stands there afterwards. -/
theorem call_at (h : Visited t w e calls e' w') {p : Path} {c : Call ε σ}
    (hc : (p, c) ∈ calls) :
    e.at? p = some c.node ∧ c.node.isInner = false ∧ c.outcome = t.apply c.node c.start ∧
      ∃ x after, c.outcome = .ok x after ∧ e'.at? p = some x := by
  induction h generalizing p with
  | @call w w' e e' he hok =>
    obtain ⟨rfl, rfl⟩ : p = [] ∧ c = ⟨e, w, t.apply e w⟩ := by simpa using hc
    exact ⟨by simp, he, rfl, e', w', hok, by simp⟩
  | assign _ _ _ _ _ ihl ihr =>
    rcases List.mem_append.mp hc with hc | hc
    · obtain ⟨q, rfl, hq⟩ := (Placed.mem_under _ _).mp hc
      simpa using ihl hq
    · obtain ⟨q, rfl, hq⟩ := (Placed.mem_under _ _).mp hc
      simpa using ihr hq
  | member _ _ _ _ ih =>
    obtain ⟨q, rfl, hq⟩ := (Placed.mem_under _ _).mp hc
    simpa using ih hq

/-- At each place that is gone through, a part of the transformation leads from the old node there
to the new one. -/
theorem inner_at (h : Visited t w e calls e' w') {p : Path} (hp : p ∈ e.inner) :
    ∃ w₁ x below x' w₂, Visited t w₁ x below x' w₂ ∧ e.at? p = some x ∧ e'.at? p = some x' ∧
      x.isInner = true ∧ below.changedBelow [] = calls.changedBelow p ∧
      w.arena.nodes.size ≤ w₁.arena.nodes.size := by
  induction h generalizing p with
  | call he => simp [Expr.inner_of_not_inner he] at hp
  | assign hstart hleft hright hid hnew ihl ihr =>
    simp only [Expr.inner, List.mem_cons, List.mem_append, List.mem_map] at hp
    rcases hp with rfl | ⟨q, hq, rfl⟩ | ⟨q, hq, rfl⟩
    · exact ⟨_, _, _, _, _, .assign hstart hleft hright hid hnew, Expr.at?_nil _, Expr.at?_nil _,
        rfl, rfl, Nat.le_refl _⟩
    · obtain ⟨w₁, x, below, x', w₂, hpart, hx, hx', hinner, hbelow, hsize⟩ := ihl hq
      exact ⟨w₁, x, below, x', w₂, hpart, by simpa, by simpa, hinner, by simpa, hstart ▸ hsize⟩
    · obtain ⟨w₁, x, below, x', w₂, hpart, hx, hx', hinner, hbelow, hsize⟩ := ihr hq
      exact ⟨w₁, x, below, x', w₂, hpart, by simpa, by simpa, hinner, by simpa,
        hstart ▸ Nat.le_trans hleft.size_le hsize⟩
  | member hstart htarget hid hnew ih =>
    simp only [Expr.inner, List.mem_cons, List.mem_map] at hp
    rcases hp with rfl | ⟨q, hq, rfl⟩
    · exact ⟨_, _, _, _, _, .member hstart htarget hid hnew, Expr.at?_nil _, Expr.at?_nil _, rfl,
        rfl, Nat.le_refl _⟩
    · obtain ⟨w₁, x, below, x', w₂, hpart, hx, hx', hinner, hbelow, hsize⟩ := ih hq
      exact ⟨w₁, x, below, x', w₂, hpart, by simpa, by simpa, hinner, by simpa, hstart ▸ hsize⟩

/-- A node that is gone through keeps its form. -/
theorem sameForm (h : Visited t w e calls e' w') (he : e.isInner = true) : e.SameForm e' := by
  cases h with
  | call hother =>
    rw [hother] at he
    cases he
  | assign => trivial
  | member => rfl

/-- An assignment is made anew if there is a change somewhere below it. -/
theorem changed_assign {left left' right right' : Expr} {lefts rights : Calls ε σ}
    (hleft : Visited t w left lefts left' w₁) (hright : Visited t w₁ right rights right' w₂) :
    (!(left'.same left && right'.same right)) =
      Calls.changedBelow (lefts.under .left ++ rights.under .right) [] := by
  rw [hleft.same_eq, hright.same_eq]
  simp

/-- A field access is made anew if there is a change somewhere below it. -/
theorem changed_member {target target' : Expr} (htarget : Visited t w target calls target' w₁) :
    (!target'.same target) = Calls.changedBelow (calls.under .target) [] := by
  rw [htarget.same_eq]
  simp

/-- A node above a change has a new identity. -/
theorem le_id (h : Visited t w e calls e' w') (he : e.isInner = true)
    (hchanged : calls.changedBelow [] = true) : w.arena.nodes.size ≤ e'.id := by
  cases h with
  | call hother =>
    rw [hother] at he
    cases he
  | assign hstart hleft hright _ hnew =>
    rw [hleft.changed_assign hright, hchanged] at hnew
    rw [← hstart]
    exact Nat.le_trans (Nat.le_trans hleft.size_le hright.size_le) (Nat.le_of_eq hnew.id_eq.symm)
  | member hstart htarget _ hnew =>
    rw [htarget.changed_member, hchanged] at hnew
    rw [← hstart]
    exact Nat.le_trans htarget.size_le (Nat.le_of_eq hnew.id_eq.symm)

/-- Beside the nodes that the calls made there is one new node for each place above a change. -/
theorem size_eq (h : Visited t w e calls e' w') :
    w'.arena.nodes.size =
      w.arena.nodes.size + calls.made + e.inner.countP fun p => calls.changedBelow p := by
  induction h with
  | call he hok hsize =>
    simp only [Expr.inner_of_not_inner he, List.countP_nil, Calls.made, Call.made, hok]
    omega
  | @assign w w₀ w₁ w₂ w' id id' left _ right _ lefts rights hstart hleft hright _ hnew ihl ihr =>
    rw [hleft.changed_assign hright] at hnew
    have hcount : ((Expr.assign id left right).inner.countP fun p =>
          Calls.changedBelow (lefts.under .left ++ rights.under .right) p) =
        (left.inner.countP fun p => lefts.changedBelow p) +
          (right.inner.countP fun p => rights.changedBelow p) +
          if Calls.changedBelow (lefts.under .left ++ rights.under .right) [] then 1 else 0 := by
      simp [Expr.inner, List.countP_cons, List.countP_map, Function.comp_def]
    rw [hstart] at ihl
    rw [hnew.size_eq, hcount, Calls.made_append, Calls.made_under, Calls.made_under]
    omega
  | @member w w₀ w₁ w' id id' target _ field calls hstart htarget _ hnew ih =>
    rw [htarget.changed_member] at hnew
    have hcount : ((Expr.member id target field).inner.countP fun p =>
          Calls.changedBelow (calls.under .target) p) =
        (target.inner.countP fun p => calls.changedBelow p) +
          if Calls.changedBelow (calls.under .target) [] then 1 else 0 := by
      simp [Expr.inner, List.countP_cons, List.countP_map, Function.comp_def]
    rw [hstart] at ih
    rw [hnew.size_eq, hcount, Calls.made_under]
    omega

end Visited

/-- The position of a new node is accounted for: it was filled during a call, or it is the identity
of the node that now stands at a place above a change. -/
def Accounts (calls : Calls ε σ) (e e' : Expr) (i : Nat) : Prop :=
  (∃ p c, (p, c) ∈ calls ∧ c.start.arena.nodes.size ≤ i ∧
      i < c.start.arena.nodes.size + c.made) ∨
    ∃ p ∈ e.inner, calls.changedBelow p = true ∧ ∃ x, e'.at? p = some x ∧ x.id = i

/-- What is accounted for below an edge is accounted for above it. -/
theorem Accounts.lift {i : Nat} {all : Calls ε σ} {x x' : Expr} (h : Accounts calls e e' i)
    (edge : Edge) (hcalls : ∀ p c, (p, c) ∈ calls → (edge :: p, c) ∈ all)
    (hinner : ∀ p ∈ e.inner, edge :: p ∈ x.inner)
    (hchanged : ∀ p, all.changedBelow (edge :: p) = calls.changedBelow p)
    (hat : ∀ p, x'.at? (edge :: p) = e'.at? p) : Accounts all x x' i := by
  rcases h with ⟨p, c, hc, hi⟩ | ⟨p, hp, hbelow, y, hy, hid⟩
  · exact .inl ⟨edge :: p, c, hcalls p c hc, hi⟩
  · exact .inr ⟨edge :: p, hinner p hp, by rw [hchanged, hbelow], y, by rw [hat, hy], hid⟩

/-- All new nodes are accounted for. -/
theorem Visited.accounts (h : Visited t w e calls e' w') {i : Nat}
    (hi : w.arena.nodes.size ≤ i) (hi' : i < w'.arena.nodes.size) : Accounts calls e e' i := by
  induction h with
  | @call w w' e e' _ hok =>
    refine .inl ⟨[], ⟨e, w, t.apply e w⟩, by simp, hi, ?_⟩
    simp only [Call.made, hok]
    omega
  | @assign w w₀ w₁ w₂ w' id id' left left' right right' lefts rights hstart hleft hright _ hnew ihl
      ihr =>
    rw [← hstart] at hi
    by_cases hi₁ : i < w₁.arena.nodes.size
    · exact (ihl hi hi₁).lift .left (by simp [Placed.mem_under]) (by simp [Expr.inner])
        (by simp) (by simp)
    by_cases hi₂ : i < w₂.arena.nodes.size
    · exact (ihr (by omega) hi₂).lift .right (by simp [Placed.mem_under]) (by simp [Expr.inner])
        (by simp) (by simp)
    -- What is left is the assignment itself.
    rw [hleft.changed_assign hright] at hnew
    obtain ⟨hchanged, hid⟩ := hnew.of_lt_size (by omega) hi'
    exact .inr ⟨[], by simp [Expr.inner], hchanged, _, Expr.at?_nil _, hid⟩
  | @member w w₀ w₁ w' id id' target target' field calls hstart htarget _ hnew ih =>
    rw [← hstart] at hi
    by_cases hi₁ : i < w₁.arena.nodes.size
    · exact (ih hi hi₁).lift .target (by simp [Placed.mem_under]) (by simp [Expr.inner])
        (by simp) (by simp)
    rw [htarget.changed_member] at hnew
    obtain ⟨hchanged, hid⟩ := hnew.of_lt_size (by omega) hi'
    exact .inr ⟨[], by simp [Expr.inner], hchanged, _, Expr.at?_nil _, hid⟩

/-- How the outcome `e'` of a transformation is put together from `e` and what the calls at the
frontier returned. -/
structure Shares (t : Transformer ε σ) (calls : Calls ε σ) (e e' : Expr) (w w' : Workspace σ) :
    Prop where
  /-- There is one call at each place of the frontier. -/
  places : calls.map Prod.fst = e.frontier
  /-- The call is on the node that stands there, and it ends as the transformer has it end. -/
  given : ∀ p c, (p, c) ∈ calls →
    e.at? p = some c.node ∧ c.node.isInner = false ∧ c.outcome = t.apply c.node c.start
  /-- The outcome is the identical node exactly if every call returned the node it was given. -/
  same_iff : e'.same e = true ↔ ∀ p c, (p, c) ∈ calls → c.kept = true
  /-- The identical node has kept everything below it. -/
  eq_of_same : e'.same e = true → e' = e
  /-- What a call returned stands at its place. -/
  replaced : ∀ p c, (p, c) ∈ calls → ∃ x after, c.outcome = .ok x after ∧ e'.at? p = some x
  /-- Assignments stay assignments, and accesses stay accesses to the same field. -/
  form : ∀ p ∈ e.inner, ∃ x x', e.at? p = some x ∧ e'.at? p = some x' ∧ x.SameForm x'
  /-- Where nothing below was changed the identical node stands. -/
  shared : ∀ p ∈ e.inner, calls.changedBelow p = false → e'.at? p = e.at? p
  /-- Above a change stands a node that did not exist before. -/
  renewed : ∀ p ∈ e.inner, calls.changedBelow p = true →
    ∃ x', e'.at? p = some x' ∧ w.arena.nodes.size ≤ x'.id
  /-- Beside what the calls made there is one new node for each place above a change. -/
  size_eq : w'.arena.nodes.size =
    w.arena.nodes.size + calls.made + e.inner.countP fun p => calls.changedBelow p
  /-- There are no other new nodes than those. -/
  accounts : ∀ i, w.arena.nodes.size ≤ i → i < w'.arena.nodes.size → Accounts calls e e' i

/-- A transformation that succeeds makes anew what stands above a changed place of the frontier and
shares the rest. The transformer may do anything at the frontier that constructions and
transformations do, with a memory of its own. On its way through assignments and field accesses it
may update this memory. The calls are those that a transformer with a log would log. -/
theorem apply_shares {knows : Workspace σ → Prop} (hhonest : t.Honest knows)
    (hthrough : t.GoesThrough) (hreach : w.arena.Reachable) (hknows : knows w)
    (he : e ∈ w.arena.nodes) (hok : t.apply e w = .ok e' w') :
    Shares t (t.frontierCalls e w) e e' w w' ∧
      ∀ log, t.logging.apply e (withLog log w) =
        .ok e' (withLog (log ++ (t.frontierCalls e w).map Prod.snd) w') := by
  have hvisited := hhonest.visited hthrough hreach hknows he hok
  constructor
  · refine ⟨hvisited.map_fst_calls, ?_, ?_, hvisited.eq_of_same, ?_, ?_, ?_, ?_, hvisited.size_eq,
      fun i hi hi' => hvisited.accounts hi hi'⟩
    · intro p c hc
      obtain ⟨hnode, hother, houtcome, -⟩ := hvisited.call_at hc
      exact ⟨hnode, hother, houtcome⟩
    · rw [hvisited.same_eq, Bool.not_eq_true', Calls.changedBelow_nil_iff]
    · intro p c hc
      exact (hvisited.call_at hc).2.2.2
    · intro p hp
      obtain ⟨_, x, _, x', _, hpart, hx, hx', hinner, -, -⟩ := hvisited.inner_at hp
      exact ⟨x, x', hx, hx', hpart.sameForm hinner⟩
    · intro p hp hnone
      obtain ⟨_, x, _, x', _, hpart, hx, hx', -, hbelow, -⟩ := hvisited.inner_at hp
      have hsame : x'.same x = true := by rw [hpart.same_eq, hbelow, hnone, Bool.not_false]
      rw [hx, hx', hpart.eq_of_same hsame]
    · intro p hp hchanged
      obtain ⟨_, x, _, x', _, hpart, -, hx', hinner, hbelow, hsize⟩ := hvisited.inner_at hp
      exact ⟨x', hx', Nat.le_trans hsize (hpart.le_id hinner (hbelow.trans hchanged))⟩
  · intro log
    rw [hthrough.apply_logging, hok]
    rfl

end Transformer

/-! ## Policies

The transformer of a policy asks no hook: it notes every node that it comes to in its memory, also
those that it goes through. -/

namespace Policy

variable {policy : Policy Expr} {w : Workspace Visits} {e : Expr}

/-- The kind of a node is noted before anything else. -/
theorem transformer_judge (policy : Policy Expr) (e : Expr) (w : Workspace Visits) :
    policy.transformer.judge e w =
      (if policy.reject.contains e.kind then Transform.abandon (.rejected e.kind)
        else if policy.stop.contains e.kind then pure (.settle e)
        else policy.verdict e : Transform Failure Visits Verdict)
        { w with memory := w.memory.push e.kind } := rfl

/-- A policy goes through assignments and field accesses unless it says that they stay. -/
theorem transformer_goesThrough (hassign : policy.stop.contains .assign = false)
    (hmember : policy.stop.contains .member = false) : policy.transformer.GoesThrough := by
  intro e w verdict w' hinner hok
  have hstop : ¬ policy.stop.contains e.kind = true := by
    cases e with
    | assign => exact Bool.eq_false_iff.mp hassign
    | member => exact Bool.eq_false_iff.mp hmember
    | constant | parameter | call | block | arrayIndex | newArray =>
      simp [Expr.isInner, Expr.kind] at hinner
  rw [transformer_judge, if_neg hstop] at hok
  split at hok
  · cases hok
  · cases e with
    | assign | member =>
      cases hok
      exact ⟨rfl, rfl⟩
    | constant | parameter | call | block | arrayIndex | newArray =>
      simp [Expr.isInner, Expr.kind] at hinner

/-- The nodes that a policy puts in the place of variables are nodes of the arena. -/
def Supplied (policy : Policy Expr) (w : Workspace Visits) : Prop :=
  ∀ slot x, (slot, x) ∈ policy.substitute → x ∈ w.arena.nodes

/-- Nodes that were supplied stay so. -/
theorem Supplied.grows (h : policy.Supplied w) (arena : Arena) (hgrows : w.arena.Grows arena) :
    policy.Supplied { w with arena } :=
  fun slot x hx => hgrows.mem (h slot x hx)

/-- A variable gives way to a node of the arena, or to a new one. -/
theorem onVariable_ends (hsupplied : policy.Supplied w) (he : e ∈ w.arena.nodes)
    (var : Variable) :
    (policy.onVariable e var).Ends w
      (fun e' w' => w.arena.Run w'.arena ∧ policy.Supplied w' ∧ e' ∈ w'.arena.nodes)
      fun _ w' => w.arena.Run w'.arena := by
  have hmade (c : Construction Expr (List Expr)) (hc : c.parts = []) :=
    Transformer.ends_build (ε := Failure) (w := w) c (by simp [Construction.Admitted, hc])
      hsupplied.grows
  unfold onVariable
  split
  · next hfound =>
    exact Transform.ends_pure
      ⟨.done _, hsupplied, hsupplied _ _ (List.mem_of_find?_eq_some hfound)⟩
  · split
    · split
      · exact hmade (.parameter _ _ _) rfl
      · exact .done _
    · split
      · exact hmade (.parameter _ _ _) rfl
      · exact Transform.ends_pure ⟨.done _, hsupplied, he⟩
  · split
    · exact hmade .thisObject rfl
    · exact Transform.ends_pure ⟨.done _, hsupplied, he⟩

/-- A constant stays or gives way to a new one. -/
theorem onConstant_ends (hsupplied : policy.Supplied w) (he : e ∈ w.arena.nodes)
    (value : Literal) :
    (policy.onConstant e value).Ends w
      (fun e' w' => w.arena.Run w'.arena ∧ policy.Supplied w' ∧ e' ∈ w'.arena.nodes)
      fun _ w' => w.arena.Run w'.arena := by
  have hmade (value : Literal) :=
    Transformer.ends_build (ε := Failure) (w := w) (.constant value)
      (by simp [Construction.Admitted, Construction.parts]) hsupplied.grows
  unfold onConstant
  split
  · exact hmade _
  · split
    · exact hmade value
    · exact Transform.ends_pure ⟨.done _, hsupplied, he⟩

/-- The transformer of a policy touches the arena by constructions only. -/
theorem transformer_honest (policy : Policy Expr) : policy.transformer.Honest policy.Supplied := by
  refine .of_ends (fun w arena hsupplied hgrows => hsupplied.grows arena hgrows)
    fun e w _ hsupplied he => ?_
  have hverdict (w : Workspace Visits) (hsupplied : policy.Supplied w) (he : e ∈ w.arena.nodes) :
      (policy.verdict e).Ends w
        (fun verdict w' => w.arena.Run w'.arena ∧ policy.Supplied w' ∧ verdict.Within w'.arena)
        fun _ w' => w.arena.Run w'.arena := by
    cases e with
    | parameter id var => exact Transformer.ends_settle (onVariable_ends hsupplied he var)
    | constant id value => exact Transformer.ends_settle (onConstant_ends hsupplied he value)
    | assign | member => exact Transform.ends_pure ⟨.done _, hsupplied, trivial⟩
    | call | block | arrayIndex | newArray =>
      refine Transform.ends_pure ⟨.done _, hsupplied, ?_⟩
      split
      · trivial
      · exact he
  have hnoted := hverdict { w with memory := w.memory.push e.kind } hsupplied he
  unfold Transform.Ends at hnoted ⊢
  rw [transformer_judge]
  by_cases hreject : policy.reject.contains e.kind = true
  · rw [if_pos hreject]
    exact .done _
  · rw [if_neg hreject]
    by_cases hstop : policy.stop.contains e.kind = true
    · rw [if_pos hstop]
      exact ⟨.done _, hsupplied, he⟩
    · rw [if_neg hstop]
      exact hnoted

end Policy

namespace Sample

/-- Keeps the node it is asked about first, and puts a read of the field in the place of any other,
also in the place of a constant that this read itself reads from. -/
def readLater (e : Expr) : Transform Empty Bool Expr := fun w =>
  .ok (if w.memory then read else e) { w with memory := true }

/-- What it puts in the place of nodes has to be there. -/
theorem readLater_honest :
    (Transformer.atFrontier readLater).Honest fun w => read ∈ w.arena.nodes := by
  refine Transformer.atFrontier_honest (fun w arena hread hgrows => hgrows.mem hread) ?_
  intro e w _ hread he
  refine ⟨.done _, hread, ?_⟩
  change (if w.memory then read else e) ∈ w.arena.nodes
  split
  · exact hread
  · exact he

/-- Replaces the constant of the second sample and looks into everything. -/
def oneToTwo : Policy Expr :=
  { replace := [(.int 1, .int 2)], substitute := [], shift := 0, fresh := [], reject := [],
    stop := [], deep := Kind.all }

/-- The kinds of the nodes that a policy comes to in the second sample. -/
def boxVisits : Policy.Visits := #[.assign, .member, .constant, .constant]

/-- The policy does to the second sample what replacing integers does to it, and takes notes. -/
theorem apply_oneToTwo : oneToTwo.transformer.apply write ⟨box, #[]⟩ =
    .ok writeTwo ⟨boxAfter, boxVisits⟩ := by
  have hthrough : oneToTwo.transformer.GoesThrough := Policy.transformer_goesThrough rfl rfl
  have hone : oneToTwo.transformer.apply one = fun w =>
      .ok (.constant w.arena.nodes.size (.int 2))
        ⟨(w.arena.alloc (.constant · (.int 2))).2, w.memory.push .constant⟩ := by
    rw [one, Transformer.apply.eq_def]
    rfl
  rw [write, hthrough.apply_assign, read, hthrough.apply_member, hone]
  rfl

end Sample

/-- A hook that keeps the first constant of the sample and replaces the second makes the assignment
anew and shares the field access on its left side. A policy that takes notes on its way replaces
both constants, and nothing is shared. -/
theorem Transformer.apply_shares_box :
    let asked : Transformer Empty Bool := atFrontier Sample.readLater
    let noting := Sample.oneToTwo.transformer
    let done : Workspace Bool :=
      ⟨⟨0, Sample.box.nodes.push (.assign 3 Sample.read Sample.read)⟩, true⟩
    Sample.box.Reachable ∧ Sample.read ∈ Sample.box.nodes ∧ Sample.write ∈ Sample.box.nodes ∧
      asked.GoesThrough ∧
      asked.apply Sample.write ⟨Sample.box, false⟩ = .ok (.assign 3 Sample.read Sample.read) done ∧
      Shares asked (asked.frontierCalls Sample.write ⟨Sample.box, false⟩) Sample.write
        (.assign 3 Sample.read Sample.read) ⟨Sample.box, false⟩ done ∧
      (∀ p c, (p, c) ∈ asked.frontierCalls Sample.write ⟨Sample.box, false⟩ →
        c.outcome = Sample.readLater c.node c.start) ∧
      noting.GoesThrough ∧ Sample.oneToTwo.Supplied ⟨Sample.box, #[]⟩ ∧
      noting.apply Sample.write ⟨Sample.box, #[]⟩ =
        .ok Sample.writeTwo ⟨Sample.boxAfter, Sample.boxVisits⟩ ∧
      Shares noting (noting.frontierCalls Sample.write ⟨Sample.box, #[]⟩) Sample.write
        Sample.writeTwo ⟨Sample.box, #[]⟩ ⟨Sample.boxAfter, Sample.boxVisits⟩ := by
  intro asked noting done
  have hread : Sample.read ∈ Sample.box.nodes := by simp [Sample.box]
  have hwrite : Sample.write ∈ Sample.box.nodes := by simp [Sample.box]
  have hok : asked.apply Sample.write ⟨Sample.box, false⟩ =
      .ok (.assign 3 Sample.read Sample.read) done := by
    simp only [asked]
    rw [Sample.write, apply_assign, Sample.read, apply_member,
      apply_of_not_inner (e := Sample.one) rfl]
    rfl
  have hasked : asked.GoesThrough := atFrontier_goesThrough Sample.readLater
  have hnoting : noting.GoesThrough := Policy.transformer_goesThrough rfl rfl
  have hsupplied : Sample.oneToTwo.Supplied ⟨Sample.box, #[]⟩ := by
    simp [Policy.Supplied, Sample.oneToTwo]
  obtain ⟨hshares, -⟩ := apply_shares Sample.readLater_honest hasked Sample.reachable_box hread
    hwrite hok
  obtain ⟨hnoted, -⟩ := apply_shares Sample.oneToTwo.transformer_honest hnoting
    Sample.reachable_box hsupplied hwrite Sample.apply_oneToTwo
  refine ⟨Sample.reachable_box, hread, hwrite, hasked, hok, hshares, fun p c hc => ?_, hnoting,
    hsupplied, Sample.apply_oneToTwo, hnoted⟩
  obtain ⟨-, hother, houtcome⟩ := hshares.given p c hc
  rw [houtcome]
  exact congrFun (apply_of_not_inner hother) c.start

end MethodBody
