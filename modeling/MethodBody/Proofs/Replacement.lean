import MethodBody.Proofs.HookOrder
import MethodBody.Proofs.Sharing

/-!
# Replacing integers

Replacing an integer constant by another one never fails, and it settles in one go. The outcome
shows the old constant nowhere at its frontier, and an expression that does not show it is its own
outcome, in any workspace and without a new node. The constants that do get replaced are those that
are reached through assignments and field accesses. Calls, blocks, array elements and array literals
stay as they are, with all that lies below them.
-/

namespace MethodBody

namespace Expr

section Reached

variable {e x : Expr} {p : Path} {id : NodeId} {n : Int32}

/-- Only the node itself is reached from a node at the frontier. -/
theorem at?_eq_some_of_not_inner (h : e.isInner = false) :
    e.at? p = some x ↔ p = [] ∧ e = x := by
  cases p with
  | nil => simp
  | cons edge p => simp [at?_cons_of_not_inner h]

/-- From a field access one reaches the access itself or what the target reaches. -/
theorem at?_member_eq_some {target : Expr} {field : Field} :
    (member id target field).at? p = some x ↔
      p = [] ∧ member id target field = x ∨ ∃ q, p = .target :: q ∧ target.at? q = some x := by
  rcases p with - | ⟨- | - | -, p⟩
  · simp
  · simp [at?]
  · simp [at?]
  · simp

/-- From an assignment one reaches the assignment itself or what one of its sides reaches. -/
theorem at?_assign_eq_some {left right : Expr} :
    (assign id left right).at? p = some x ↔
      p = [] ∧ assign id left right = x ∨ (∃ q, p = .left :: q ∧ left.at? q = some x) ∨
        ∃ q, p = .right :: q ∧ right.at? q = some x := by
  rcases p with - | ⟨- | - | -, p⟩
  · simp
  · simp
  · simp
  · simp [at?]

/-- What is reached from a node of an arena is a node of the arena. -/
theorem mem_of_at? {arena : Arena} (hclosed : arena.Closed) (he : e ∈ arena.nodes)
    (hx : e.at? p = some x) : x ∈ arena.nodes := by
  induction e using inner_induction generalizing p with
  | other e h =>
    obtain ⟨-, rfl⟩ := (at?_eq_some_of_not_inner h).mp hx
    exact he
  | member id target field ih =>
    have htarget := (hclosed _ he).2 target (by simp [children])
    rcases at?_member_eq_some.mp hx with ⟨-, rfl⟩ | ⟨q, -, hq⟩
    · exact he
    · exact ih htarget hq
  | assign id left right ihl ihr =>
    have hleft := (hclosed _ he).2 left (by simp [children])
    have hright := (hclosed _ he).2 right (by simp [children])
    rcases at?_assign_eq_some.mp hx with ⟨-, rfl⟩ | ⟨q, -, hq⟩ | ⟨q, -, hq⟩
    · exact he
    · exact ihl hleft hq
    · exact ihr hright hq

/-- The integer constant `n` is reached through assignments and field accesses. -/
def Shows (e : Expr) (n : Int32) : Prop := ∃ p id, e.at? p = some (.constant id (.int n))

/-- At the frontier a node shows a constant only by being it. -/
theorem shows_of_not_inner (h : e.isInner = false) :
    e.Shows n ↔ ∃ id, e = .constant id (.int n) := by
  simp [Shows, at?_eq_some_of_not_inner h]

/-- A field access shows what its target shows. -/
theorem shows_member {target : Expr} {field : Field} :
    (member id target field).Shows n ↔ target.Shows n := by
  constructor
  · rintro ⟨p, c, hp⟩
    rcases at?_member_eq_some.mp hp with ⟨-, heq⟩ | ⟨q, -, hq⟩
    · cases heq
    · exact ⟨q, c, hq⟩
  · rintro ⟨p, c, hp⟩
    exact ⟨.target :: p, c, by simpa using hp⟩

/-- An assignment shows what one of its sides shows. -/
theorem shows_assign {left right : Expr} :
    (assign id left right).Shows n ↔ left.Shows n ∨ right.Shows n := by
  constructor
  · rintro ⟨p, c, hp⟩
    rcases at?_assign_eq_some.mp hp with ⟨-, heq⟩ | ⟨q, -, hq⟩ | ⟨q, -, hq⟩
    · cases heq
    · exact .inl ⟨q, c, hq⟩
    · exact .inr ⟨q, c, hq⟩
  · rintro (⟨p, c, hp⟩ | ⟨p, c, hp⟩)
    · exact ⟨.left :: p, c, by simpa using hp⟩
    · exact ⟨.right :: p, c, by simpa using hp⟩

end Reached

end Expr

namespace Transformer

variable {ε σ : Type} {hook : Expr → Transform ε σ Expr} {t : Transformer ε σ}
  {w w' : Workspace σ} {e e' : Expr} {calls : Calls ε σ} {old new : Int32}

/-- Nodes above the frontier are never refused, so a hook that always succeeds makes the whole
transformation succeed. -/
theorem exists_apply_eq_ok (hhook : ∀ e w, ∃ e' w', hook e w = .ok e' w') (e : Expr)
    (w : Workspace σ) : ∃ e' w', (atFrontier hook).apply e w = .ok e' w' := by
  induction e using Expr.inner_induction generalizing w with
  | other e h =>
    rw [apply_of_not_inner h]
    exact hhook e w
  | member id target field ih =>
    obtain ⟨target', w₁, hrun⟩ := ih w
    rw [apply_member, Transform.bind_of_ok hrun]
    split
    · exact ⟨_, _, rfl⟩
    · exact ⟨_, _, rfl⟩
  | assign id left right ihl ihr =>
    obtain ⟨left', w₁, hleft⟩ := ihl w
    obtain ⟨right', w₂, hright⟩ := ihr w₁
    rw [apply_assign, Transform.bind_of_ok hleft, Transform.bind_of_ok hright]
    split
    · exact ⟨_, _, rfl⟩
    · exact ⟨_, _, rfl⟩

/-- If the hook keeps every node at the frontier, nothing happens. -/
theorem apply_eq_self
    (hkept : ∀ p x, e.at? p = some x → x.isInner = false → ∀ w, hook x w = .ok x w)
    (w : Workspace σ) : (atFrontier hook).apply e w = .ok e w := by
  induction e using Expr.inner_induction with
  | other e h =>
    rw [apply_of_not_inner h]
    exact hkept [] e (by simp) h w
  | member id target field ih =>
    have htarget := ih fun p x hx => hkept (.target :: p) x (by simpa using hx)
    rw [apply_member, Transform.bind_of_ok htarget, if_pos (Expr.same_iff.mpr rfl)]
    rfl
  | assign id left right ihl ihr =>
    have hleft := ihl fun p x hx => hkept (.left :: p) x (by simpa using hx)
    have hright := ihr fun p x hx => hkept (.right :: p) x (by simpa using hx)
    have hsame : (left.same left && right.same right) = true := by simp [Expr.same_iff]
    rw [apply_assign, Transform.bind_of_ok hleft, Transform.bind_of_ok hright, if_pos hsame]
    rfl

/-- The arena of a call has at least the nodes that were there when the transformation started. -/
theorem Visited.size_le_start (h : Visited t w e calls e' w') {p : Path} {c : Call ε σ}
    (hc : (p, c) ∈ calls) : w.arena.nodes.size ≤ c.start.arena.nodes.size := by
  induction h generalizing p with
  | @call w w' e e' =>
    obtain ⟨rfl, rfl⟩ : p = [] ∧ c = ⟨e, w, t.apply e w⟩ := by simpa using hc
    exact Nat.le_refl _
  | assign hstart hleft _ _ _ ihl ihr =>
    rw [← hstart]
    rcases List.mem_append.mp hc with hc | hc
    · obtain ⟨q, -, hq⟩ := (Placed.mem_under _ _).mp hc
      exact ihl hq
    · obtain ⟨q, -, hq⟩ := (Placed.mem_under _ _).mp hc
      exact Nat.le_trans hleft.size_le (ihr hq)
  | member hstart _ _ _ ih =>
    rw [← hstart]
    obtain ⟨q, -, hq⟩ := (Placed.mem_under _ _).mp hc
    exact ih hq

/-- There was a call at every place of the frontier, and what it returned stands there. -/
theorem Visited.exists_call (h : Visited t w e calls e' w') {p : Path} {x : Expr}
    (hx : e.at? p = some x) (hother : x.isInner = false) :
    ∃ start x' after, w.arena.nodes.size ≤ start.arena.nodes.size ∧
      t.apply x start = .ok x' after ∧ e'.at? p = some x' := by
  have hp : p ∈ calls.map Prod.fst := by
    rw [h.map_fst_calls]
    exact Expr.mem_frontier_iff.mpr ⟨x, hx, hother⟩
  obtain ⟨⟨q, c⟩, hc, rfl⟩ := List.mem_map.mp hp
  obtain ⟨hnode, -, houtcome, x', after, hok, hx'⟩ := h.call_at hc
  obtain rfl : x = c.node := Option.some.inj (hx.symm.trans hnode)
  exact ⟨c.start, x', after, h.size_le_start hc, houtcome.symm.trans hok, hx'⟩

/-- A constant that the outcome shows is shown by what a call returned. -/
theorem Visited.shows_outcome (h : Visited t w e calls e' w') {n : Int32} (hn : e'.Shows n) :
    ∃ x start x' after, x.isInner = false ∧ t.apply x start = .ok x' after ∧ x'.Shows n := by
  induction h with
  | @call w w' e e' he hok => exact ⟨e, w, e', w', he, hok, hn⟩
  | assign _ _ _ _ _ ihl ihr =>
    rcases Expr.shows_assign.mp hn with hleft | hright
    · exact ihl hleft
    · exact ihr hright
  | member _ _ _ _ ih => exact ih (Expr.shows_member.mp hn)

/-- The constant is replaced by one with the next free identity. -/
theorem replacement_old (id : NodeId) (w : Workspace σ) :
    (replacement old new (.constant id (.int old)) : Transform ε σ Expr) w =
      .ok (.constant w.arena.nodes.size (.int new))
        (w.add (.constant w.arena.nodes.size (.int new))) := by
  rw [replacement, if_pos rfl]
  rfl

/-- Everything else is kept. -/
theorem replacement_other (h : ∀ id, e ≠ .constant id (.int old)) (w : Workspace σ) :
    (replacement old new e : Transform ε σ Expr) w = .ok e w := by
  unfold replacement
  split
  · rename_i id n
    have hne : n ≠ old := by
      rintro rfl
      exact h id rfl
    rw [if_neg hne]
    rfl
  · rfl

/-- Either the node is the constant to replace, or it is kept. -/
theorem replacement_cases (old new : Int32) (e : Expr) (w : Workspace σ) :
    (∃ id, e = .constant id (.int old) ∧
      (replacement old new e : Transform ε σ Expr) w =
        .ok (.constant w.arena.nodes.size (.int new))
          (w.add (.constant w.arena.nodes.size (.int new)))) ∨
      (∀ id, e ≠ .constant id (.int old)) ∧
        (replacement old new e : Transform ε σ Expr) w = .ok e w := by
  by_cases hold : ∃ id, e = .constant id (.int old)
  · obtain ⟨id, rfl⟩ := hold
    exact .inl ⟨id, rfl, replacement_old id w⟩
  · have hother : ∀ id, e ≠ .constant id (.int old) := fun id heq => hold ⟨id, heq⟩
    exact .inr ⟨hother, replacement_other hother w⟩

/-- An expression without the old constant is its own outcome. -/
theorem apply_replaceInt_of_not_shows (h : ¬ e.Shows old) (w : Workspace σ) :
    (replaceInt old new : Transformer ε σ).apply e w = .ok e w := by
  rw [replaceInt]
  refine apply_eq_self (fun p x hx _ w => replacement_other ?_ w) w
  rintro id rfl
  exact h ⟨p, id, hx⟩

/-- Replacing integers succeeds everywhere. -/
theorem exists_visited_replacement (old new : Int32) (hreach : w.arena.Reachable)
    (he : e ∈ w.arena.nodes) :
    ∃ e' w', (replaceInt old new : Transformer ε σ).apply e w = .ok e' w' ∧
      w.arena.Grows w'.arena ∧ ∃ calls : Calls ε σ,
        Visited (replaceInt old new) w e calls e' w' := by
  have hhonest : (replaceInt old new : Transformer ε σ).Honest fun _ => True :=
    replaceInt_honest old new
  have hhook (x : Expr) (start : Workspace σ) :
      ∃ x' after, (replacement old new x : Transform ε σ Expr) start = .ok x' after := by
    rcases replacement_cases old new x start with ⟨-, -, hok⟩ | ⟨-, hok⟩
    · exact ⟨_, _, hok⟩
    · exact ⟨_, _, hok⟩
  obtain ⟨e', w', hok⟩ := exists_apply_eq_ok hhook e w
  obtain ⟨hgrows, -, -⟩ := hhonest.apply_ok hreach trivial he hok
  exact ⟨e', w', hok, hgrows, _, hhonest.visited (atFrontier_goesThrough _) hreach trivial he hok⟩

namespace Visited

variable (h : Visited (replaceInt old new) w e calls e' w') {p : Path}

include h

/-- A new constant stands in the place of the old one. -/
theorem at?_of_old {id : NodeId} (hp : e.at? p = some (.constant id (.int old))) :
    ∃ id', w.arena.nodes.size ≤ id' ∧ e'.at? p = some (.constant id' (.int new)) := by
  obtain ⟨start, x', after, hsize, hrun, hx'⟩ := h.exists_call hp rfl
  rw [replaceInt, apply_of_not_inner rfl, replacement_old] at hrun
  cases hrun
  exact ⟨_, hsize, hx'⟩

/-- Everything else at the frontier stands where it stood. -/
theorem at?_of_other {x : Expr} (hp : e.at? p = some x) (hother : x.isInner = false)
    (hx : ∀ id, x ≠ .constant id (.int old)) : e'.at? p = some x := by
  obtain ⟨start, x', after, -, hrun, hx'⟩ := h.exists_call hp hother
  rw [replaceInt, apply_of_not_inner hother, replacement_other hx] at hrun
  cases hrun
  exact hx'

/-- An outcome with the same identity shows that there was nothing to replace, since a new constant
has an identity that no node of the old arena has. -/
theorem not_shows_of_same (hreach : w.arena.Reachable) (he : e ∈ w.arena.nodes)
    (hsame : e'.same e = true) : ¬ e.Shows old := by
  rintro ⟨p, id, hp⟩
  obtain ⟨id', hsize, hp'⟩ := h.at?_of_old hp
  rw [h.eq_of_same hsame, hp] at hp'
  have hlt := hreach.id_lt_size (Expr.mem_of_at? hreach.closed he hp)
  cases hp'
  exact absurd hlt (Nat.not_lt.mpr hsize)

/-- Nothing that is put at the frontier is the old constant. -/
theorem not_shows_outcome (hne : old ≠ new) : ¬ e'.Shows old := by
  intro hshows
  obtain ⟨x, start, x', after, hother, hok, hx'⟩ := h.shows_outcome hshows
  rw [replaceInt, apply_of_not_inner hother] at hok
  rcases replacement_cases (ε := ε) old new x start with ⟨id, rfl, hnew⟩ | ⟨hkept, hsame⟩
  · rw [hnew] at hok
    cases hok
    obtain ⟨id', heq⟩ := (Expr.shows_of_not_inner rfl).mp hx'
    injection heq with _ hvalue
    injection hvalue with hvalue
    exact hne hvalue.symm
  · rw [hsame] at hok
    cases hok
    obtain ⟨id', rfl⟩ := (Expr.shows_of_not_inner hother).mp hx'
    exact hkept id' rfl

end Visited

/-- Replacing integers succeeds at every node of an arena. The outcome is the identical node exactly
if the old constant is not reached through assignments and field accesses alone, and then no node is
made. If the two integers differ, doing it again, at once or in any later workspace, returns the
identical node and makes nothing. A new constant stands in each place where the old one was reached.
Whatever else was reached is the identical node with all that lies below it, also where the old
constant is part of it. No node of the arena is changed. -/
theorem replaceInt_idempotent (old new : Int32) (hreach : w.arena.Reachable)
    (he : e ∈ w.arena.nodes) :
    ∃ e' w', (replaceInt old new : Transformer ε σ).apply e w = .ok e' w' ∧
      (e'.same e = true ↔ ¬ e.Shows old) ∧ (e'.same e = true → e' = e ∧ w' = w) ∧
      (old ≠ new → ∀ later : Workspace σ,
        (replaceInt old new : Transformer ε σ).apply e' later = .ok e' later) ∧
      (∀ p id, e.at? p = some (.constant id (.int old)) →
        ∃ id', w.arena.nodes.size ≤ id' ∧ e'.at? p = some (.constant id' (.int new))) ∧
      (∀ p x, e.at? p = some x → x.isInner = false → (∀ id, x ≠ .constant id (.int old)) →
        e'.at? p = some x) ∧
      ∀ (i : Nat) (x : Expr), w.arena.nodes[i]? = some x → w'.arena.nodes[i]? = some x := by
  obtain ⟨e', w', hok, hgrows, calls, hvisited⟩ :=
    exists_visited_replacement (ε := ε) old new hreach he
  have hself (hnone : ¬ e.Shows old) : e' = e ∧ w' = w := by
    have hkept := hok.symm.trans (apply_replaceInt_of_not_shows hnone w)
    cases hkept
    exact ⟨rfl, rfl⟩
  have hshows (hsame : e'.same e = true) : ¬ e.Shows old :=
    hvisited.not_shows_of_same hreach he hsame
  have hsame (hnone : ¬ e.Shows old) : e'.same e = true := by
    rw [(hself hnone).1]
    exact Expr.same_iff.mpr rfl
  exact ⟨e', w', hok, ⟨hshows, hsame⟩, fun hsame => hself (hshows hsame),
    fun hne later => apply_replaceInt_of_not_shows (hvisited.not_shows_outcome hne) later,
    fun p id => hvisited.at?_of_old, fun p x => hvisited.at?_of_other,
    fun i x hx => hgrows.getElem? hx⟩

end Transformer

namespace Sample

/-- The literal `int[] {1}` on the constant of the second sample. -/
def pack : Expr := .newArray 1 .int [one]

/-- The assignment `1 = int[] {1}`, in which the constant is reached on the left side only. -/
def stow : Expr := .assign 2 one pack

/-- The nodes of this assignment. -/
def crate : Arena := ⟨0, #[one, pack, stow]⟩

/-- The assignment `2 = int[] {1}`. -/
def stowTwo : Expr := .assign 4 (.constant 3 (.int 2)) pack

/-- The nodes after the replacement. -/
def crateAfter : Arena := ⟨0, #[one, pack, stow, .constant 3 (.int 2), stowTwo]⟩

/-- Three constructions make this arena. -/
theorem run_crate : (Arena.empty 0).Run crate := by
  have hpack : (Arena.empty 0).Run ⟨0, #[one, pack]⟩ := .build (.newArray .int [one]) run_one
    (by simp [Construction.Admitted, Construction.parts])
  exact .build (.assign one pack) hpack
    (by simp [Construction.Admitted, Construction.parts])

end Sample

/-- The constant on the left side is replaced, and the one in the literal stays. -/
theorem Transformer.replaceInt_idempotent_crate :
    Sample.crate.Reachable ∧ Sample.stow ∈ Sample.crate.nodes ∧
      (replaceInt 1 2 : Transformer Empty Unit).apply Sample.stow ⟨Sample.crate, ()⟩ =
        .ok Sample.stowTwo ⟨Sample.crateAfter, ()⟩ ∧
      Sample.stowTwo.at? [.right] = some Sample.pack ∧
      (replaceInt 1 2 : Transformer Empty Unit).apply Sample.stowTwo ⟨Sample.crateAfter, ()⟩ =
        .ok Sample.stowTwo ⟨Sample.crateAfter, ()⟩ := by
  have hreach := Sample.run_crate.reachable
  have hstow : Sample.stow ∈ Sample.crate.nodes := by simp [Sample.crate]
  have hok : (replaceInt 1 2 : Transformer Empty Unit).apply Sample.stow ⟨Sample.crate, ()⟩ =
      .ok Sample.stowTwo ⟨Sample.crateAfter, ()⟩ := by
    rw [replaceInt, Sample.stow, apply_assign, apply_of_not_inner (e := Sample.one) rfl,
      apply_of_not_inner (e := Sample.pack) rfl]
    rfl
  obtain ⟨e', w', hok', -, -, hagain, -, hother, -⟩ :=
    replaceInt_idempotent (ε := Empty) 1 2 (w := ⟨Sample.crate, ()⟩) hreach hstow
  cases hok.symm.trans hok'
  have hpack := hother [.right] Sample.pack (by simp [Sample.stow]) rfl (by simp [Sample.pack])
  exact ⟨hreach, hstow, hok, hpack, hagain (by decide) _⟩

end MethodBody
