import MethodBody.Proofs.Reachable

/-!
# How arenas grow

An arena is never changed but by constructions, each of which adds one node at the end or is
refused. So every node of a reachable arena is what its own construction makes of the nodes before
it. Its identity is its position, its children stand before it, and nodes of one arena with the same
identity are equal.
-/

namespace MethodBody

/-- After a construction the arena is as it was or has one node more. -/
theorem Construction.arenaAfter_cases (c : Construction Expr (List Expr)) (arena : Arena) :
    (∃ e, c.build arena = .ok e { arena with nodes := arena.nodes.push e } ∧
        e.children = c.parts ∧ e.origin.build = c.build ∧
        c.build.arenaAfter arena = { arena with nodes := arena.nodes.push e }) ∨
      c.build.arenaAfter arena = arena := by
  rcases c.build_cases arena with ⟨e, hok, -, hchildren, -, horigin, -⟩ | ⟨error, herror⟩
  · exact .inl ⟨e, hok, hchildren, horigin, by simp only [Build.arenaAfter, hok]⟩
  · exact .inr (by simp only [Build.arenaAfter, herror])

namespace Arena

/-- One arena comes from another by constructions, of which some may have been refused. -/
inductive Grows (start : Arena) : Arena → Prop where
  | refl : Grows start start
  | build {arena : Arena} (c : Construction Expr (List Expr)) (h : Grows start arena)
      (hc : c.Admitted arena) : Grows start (c.build.arenaAfter arena)

variable {a b c : Arena}

/-- Growth upon growth is growth. -/
theorem Grows.trans (hab : a.Grows b) (hbc : b.Grows c) : a.Grows c := by
  induction hbc with
  | refl => exact hab
  | build c _ hc ih => exact .build c ih hc

/-- What grows from a reachable arena is reachable. -/
theorem Reachable.grows (ha : a.Reachable) (hab : a.Grows b) : b.Reachable := by
  induction hab with
  | refl => exact ha
  | build c _ hc ih => exact .build c ih hc

/-- A node stays where it is. -/
theorem Grows.getElem? (hab : a.Grows b) {i : Nat} {e : Expr} (he : a.nodes[i]? = some e) :
    b.nodes[i]? = some e := by
  induction hab with
  | refl => exact he
  | @build arena c _ _ ih =>
    have hlt : i < arena.nodes.size := (Array.getElem?_eq_some_iff.mp ih).1
    rcases c.arenaAfter_cases arena with ⟨x, -, -, -, hafter⟩ | hafter
    · rw [hafter, Array.getElem?_push_lt hlt, ← Array.getElem?_eq_getElem hlt, ih]
    · rw [hafter, ih]

/-- Nodes stay in an arena that grows. -/
theorem Grows.mem (hab : a.Grows b) {e : Expr} (he : e ∈ a.nodes) : e ∈ b.nodes := by
  obtain ⟨i, hi⟩ := Array.mem_iff_getElem?.mp he
  exact Array.mem_iff_getElem?.mpr ⟨i, hab.getElem? hi⟩

/-- An arena that grows does not get smaller. -/
theorem Grows.size_le (hab : a.Grows b) : a.nodes.size ≤ b.nodes.size := by
  induction hab with
  | refl => exact Nat.le_refl _
  | @build arena c _ _ ih =>
    rcases c.arenaAfter_cases arena with ⟨x, -, -, -, hafter⟩ | hafter
    · rw [hafter, Array.size_push]
      omega
    · rwa [hafter]

/-- The arena as it was when it had `n` nodes. -/
def before (arena : Arena) (n : Nat) : Arena := { arena with nodes := arena.nodes.take n }

/-- The node is what its own construction makes of the nodes that stand before position `i`. -/
structure MadeAt (arena : Arena) (i : Nat) (e : Expr) : Prop where
  admitted : e.origin.Admitted (arena.before i)
  build_eq : e.origin.build (arena.before i) = .ok e (arena.before (i + 1))

variable {arena : Arena} {i : Nat} {e : Expr}

/-- With all its nodes an arena is as it is now. -/
theorem before_size (arena : Arena) : arena.before arena.nodes.size = arena := by
  simp [before]

/-- What an arena was like before does not depend on what is added to it. -/
theorem before_push {n : Nat} (hn : n ≤ arena.nodes.size) (e : Expr) :
    ({ arena with nodes := arena.nodes.push e } : Arena).before n = arena.before n := by
  simp [before, hn]

/-- Every node of a reachable arena was made by its own construction when its turn came. -/
theorem Reachable.madeAt (h : arena.Reachable) (he : arena.nodes[i]? = some e) :
    arena.MadeAt i e := by
  induction h generalizing i e with
  | empty tag => simp [Arena.empty] at he
  | @build arena c _ hc ih =>
    rcases c.arenaAfter_cases arena with ⟨x, hok, hchildren, horigin, hafter⟩ | hafter
    · rw [hafter] at he ⊢
      rw [Array.getElem?_push] at he
      by_cases hi : i = arena.nodes.size
      · rw [if_pos hi, Option.some.injEq] at he
        subst he hi
        have hnow : ({ arena with nodes := arena.nodes.push x } : Arena).before arena.nodes.size =
            arena := by
          rw [before_push (Nat.le_refl _), before_size]
        have hnext := before_size { arena with nodes := arena.nodes.push x }
        simp only [Array.size_push] at hnext
        refine ⟨?_, by rw [hnow, hnext, horigin, hok]⟩
        rwa [hnow, Construction.Admitted, x.parts_origin, hchildren]
      · rw [if_neg hi] at he
        have hlt : i < arena.nodes.size := (Array.getElem?_eq_some_iff.mp he).1
        obtain ⟨hadmitted, hbuild⟩ := ih he
        constructor
        · rwa [before_push (by omega)]
        · rwa [before_push (by omega), before_push (by omega)]
    · rw [hafter] at he ⊢
      exact ih he

/-- A node that was made by its own construction has its position as identity, is sound, and builds
on nodes that stand before it. -/
theorem MadeAt.spec (h : arena.MadeAt i e) :
    e.id = (arena.before i).nodes.size ∧ e.Sound ∧
      ∀ c ∈ e.children, c ∈ (arena.before i).nodes := by
  obtain ⟨hid, hchildren, hsound, -⟩ := Construction.of_build_eq_ok h.build_eq
  refine ⟨hid, hsound, ?_⟩
  rw [hchildren]
  exact h.admitted

/-- The identity of a node is its position. -/
theorem Reachable.id_eq (h : arena.Reachable) (he : arena.nodes[i]? = some e) : e.id = i := by
  have hlt : i < arena.nodes.size := (Array.getElem?_eq_some_iff.mp he).1
  rw [(h.madeAt he).spec.1]
  simp [before, Nat.le_of_lt hlt]

/-- A node is found under its identity. -/
theorem Reachable.getElem?_id (h : arena.Reachable) (he : e ∈ arena.nodes) :
    arena.nodes[e.id]? = some e := by
  obtain ⟨i, hi⟩ := Array.mem_iff_getElem?.mp he
  rwa [h.id_eq hi]

/-- Identities lie below the size of the arena. -/
theorem Reachable.id_lt_size (h : arena.Reachable) (he : e ∈ arena.nodes) :
    e.id < arena.nodes.size :=
  (Array.getElem?_eq_some_iff.mp (h.getElem?_id he)).1

/-- Nodes of one arena with the same identity are equal. -/
theorem Reachable.eq_of_same (h : arena.Reachable) {x y : Expr} (hx : x ∈ arena.nodes)
    (hy : y ∈ arena.nodes) (hsame : x.same y = true) : x = y := by
  have hfound := h.getElem?_id hx
  rw [Expr.same_iff.mp hsame, h.getElem?_id hy, Option.some.injEq] at hfound
  exact hfound.symm

/-- Lists of nodes of one arena with the same identities are equal. -/
theorem Reachable.eq_of_sameAll (h : arena.Reachable) {xs ys : List Expr}
    (hxs : ∀ x ∈ xs, x ∈ arena.nodes) (hys : ∀ y ∈ ys, y ∈ arena.nodes)
    (hsame : Expr.sameAll xs ys = true) : xs = ys := by
  rw [Expr.sameAll_iff] at hsame
  induction xs generalizing ys with
  | nil => simpa using hsame.symm
  | cons x xs ih =>
    cases ys with
    | nil => simp at hsame
    | cons y ys =>
      simp only [List.map_cons, List.cons.injEq] at hsame
      have hhead := h.eq_of_same (hxs x (by simp)) (hys y (by simp)) (Expr.same_iff.mpr hsame.1)
      have htail := ih (fun z hz => hxs z (by simp [hz])) (fun z hz => hys z (by simp [hz])) hsame.2
      rw [hhead, htail]

/-- The children of a node stand before it, each under its own identity. -/
theorem Reachable.children_before (h : arena.Reachable) (he : arena.nodes[i]? = some e) {c : Expr}
    (hc : c ∈ e.children) : c.id < i ∧ arena.nodes[c.id]? = some c := by
  have hmem := (h.madeAt he).spec.2.2 c hc
  obtain ⟨j, hj⟩ := Array.mem_iff_getElem?.mp hmem
  obtain ⟨hlt, hj⟩ : j < min i arena.nodes.size ∧ arena.nodes[j]? = some c := by
    simpa [before, Array.getElem?_extract] using hj
  rw [h.id_eq hj]
  exact ⟨Nat.lt_of_lt_of_le hlt (Nat.min_le_left i _), hj⟩

end Arena

end MethodBody
