import MethodBody.Proofs.Growth
import MethodBody.Transform.Basic
import Mathlib.Data.List.Forall2

/-!
# Transformations in an arena

All forms of expressions are transformed alike: the children are transformed from left to right,
and the node is made anew on the new children if one of them is another node. `Transformer.apply_eq`
says so once for all forms. From it follows, by one induction, how the outcome of a transformation
is related to the expression it started from, given what the verdicts on single nodes lead to. On
the way no node that is made anew is ever refused.
-/

namespace MethodBody

section Remaking

/-- A name that is not empty is accepted. -/
theorem requireName_of_ne {what name : String} (h : name ≠ "") :
    requireName what name = .ok () := by
  simp [requireName, h]

/-- Names that are known to be non-empty pass their checks. -/
theorem Build.member_eq_knownMember {field : Field} (howner : field.owner ≠ "")
    (hname : field.member ≠ "") (target : Expr) :
    Build.member target field = Build.knownMember target field := by
  rw [Build.member, requireName_of_ne howner, requireName_of_ne hname]
  rfl

/-- Asking for a call by the names of its signature makes the call. -/
theorem Construction.build_call_request {sig : Signature} (howner : sig.owner ≠ "")
    (hname : sig.name ≠ "") (receiver : Option Expr) (args : List Expr) :
    (Construction.call receiver sig.request args).build = Build.call receiver sig args := by
  have hmake : sig.request.make = .ok sig := by
    rw [SignatureRequest.make, Signature.make, Signature.request]
    simp only
    rw [requireName_of_ne howner, requireName_of_ne hname]
    rfl
  rw [Construction.build, hmake]
  rfl

namespace Expr

variable {e : Expr} {cs : List Expr}

/-- A node like the given one with another identity, on other children from left to right. -/
def renew : Expr → NodeId → List Expr → Expr
  | .constant _ value, id, _ => .constant id value
  | .parameter _ var, id, _ => .parameter id var
  | .member _ target field, id, cs => .member id (cs.headD target) field
  | .assign _ left right, id, cs => .assign id (cs.headD left) (cs.getD 1 right)
  | .call _ none sig _, id, cs => .call id none sig cs
  | .call _ (some receiver) sig _, id, cs => .call id (some (cs.headD receiver)) sig cs.tail
  | .block _ ty locals _ result, id, cs => .block id ty locals cs.dropLast (cs.getLastD result)
  | .arrayIndex _ array index, id, cs => .arrayIndex id (cs.headD array) (cs.getD 1 index)
  | .newArray _ element _, id, cs => .newArray id element cs

/-- A node on its own children under its own identity is the node itself. -/
theorem renew_self (e : Expr) : e.renew e.id e.children = e := by
  cases e with
  | call id receiver sig args => cases receiver <;> rfl
  | block id ty locals statements result =>
    simp [renew, children, Expr.id, List.getLastD_eq_getLast?]
  | constant | parameter | member | assign | arrayIndex | newArray => rfl

/-- A sound node can always be made anew on as many children as it has. -/
theorem remake_build (hsound : e.Sound) (hlength : cs.length = e.children.length) (arena : Arena) :
    (e.remake cs).build arena = .ok (e.renew arena.nodes.size cs)
      { arena with nodes := arena.nodes.push (e.renew arena.nodes.size cs) } := by
  cases e with
  | constant | assign | arrayIndex => rfl
  | parameter id var =>
    obtain ⟨slot, name, ty⟩ := var
    cases ty with
    | some ty => rfl
    | none =>
      obtain ⟨rfl, rfl⟩ : slot = 0 ∧ name = "this" := hsound rfl
      rfl
  | member id target field =>
    rw [remake, Construction.build, Build.member_eq_knownMember hsound.1 hsound.2]
    rfl
  | block id ty locals statements result =>
    have hne : cs ≠ [] := by
      rintro rfl
      simp [children] at hlength
    rw [remake, Construction.build, Build.blockWithLocals, renew, List.getLastD_eq_getLast?,
      List.getLast?_eq_some_getLast hne]
    rfl
  | newArray id element elements =>
    have hvoid : ¬ element.isVoid = true := by simp [hsound.1]
    have hshort : ¬ cs.length > Build.maxArrayLength := by
      rw [hlength]
      exact Nat.not_lt.mpr hsound.2
    rw [remake, Construction.build, Build.newArray, if_neg hvoid, if_neg hshort]
    rfl
  | call id receiver sig args =>
    obtain ⟨howner, hname, harity⟩ := hsound
    cases receiver with
    | none =>
      have harity' : cs.length = sig.params.length := hlength.trans harity
      rw [remake, Construction.build_call_request howner hname, Build.call, if_pos harity']
      rfl
    | some receiver =>
      have harity' : cs.tail.length = sig.params.length := by
        rw [List.length_tail, hlength, ← harity]
        simp [children]
      rw [remake, Construction.build_call_request howner hname, Build.call, if_pos harity']
      rfl

end Expr

/-- A node can be asked for again on other nodes of the arena. -/
theorem Expr.remake_admitted {arena : Arena} {e : Expr} {cs : List Expr}
    (hlength : cs.length = e.children.length) (hcs : ∀ c ∈ cs, c ∈ arena.nodes) :
    (e.remake cs).Admitted arena := by
  rwa [Construction.Admitted, parts_remake hlength]

end Remaking

namespace Expr

/-- Lists are the same if their first nodes and the others are. -/
theorem sameAll_cons (x y : Expr) (xs ys : List Expr) :
    sameAll (x :: xs) (y :: ys) = (x.same y && sameAll xs ys) := by
  rw [Bool.eq_iff_iff]
  simp [sameAll_iff, same_iff]

/-- Lists are the same if their last nodes and the others are. -/
theorem sameAll_append_singleton (x y : Expr) (xs ys : List Expr) :
    sameAll (xs ++ [x]) (ys ++ [y]) = (sameAll xs ys && x.same y) := by
  rw [Bool.eq_iff_iff]
  simp [sameAll_iff, same_iff]

/-- Empty lists are the same. -/
theorem sameAll_nil : sameAll [] [] = true := rfl

end Expr

namespace Transformer

variable {ε σ : Type}

/-- The last expression of a list is transformed after all others. -/
theorem applyAll_append_singleton (t : Transformer ε σ) (es : List Expr) (e : Expr) :
    t.applyAll (es ++ [e]) = (do
      let es' ← t.applyAll es
      let e' ← t.apply e
      pure (es' ++ [e'])) := by
  induction es with
  | nil => simp [applyAll]
  | cons x rest ih => simp [applyAll, ih]

/-- All forms of expressions are transformed alike. The children of a node without children are
never other nodes, so such a node stays. -/
theorem apply_eq (t : Transformer ε σ) {e : Expr} (hsound : e.Sound) :
    t.apply e = (do
      match ← t.judge e with
      | .settle e' => pure e'
      | .descend =>
        let cs ← t.applyAll e.children
        if Expr.sameAll cs e.children then pure e
        else Transform.build (e.remake cs).build) := by
  rw [apply.eq_def]
  congr 1
  funext verdict
  cases verdict with
  | settle e' => rfl
  | descend =>
    cases e with
    | constant | parameter | newArray => rfl
    | assign | arrayIndex =>
      simp [applyAll, Expr.children, Expr.sameAll_cons, Expr.sameAll_nil, Expr.remake,
        Construction.build]
    | member id target field =>
      simp [applyAll, Expr.children, Expr.sameAll_cons, Expr.sameAll_nil, Expr.remake,
        Construction.build, Build.member_eq_knownMember hsound.1 hsound.2]
    | block id ty locals statements result =>
      simp [applyAll_append_singleton, Expr.children, Expr.sameAll_append_singleton, Expr.remake,
        Construction.build]
    | call id receiver sig args =>
      have hbuild := Construction.build_call_request hsound.1 hsound.2.1
      cases receiver with
      | none => simp [Expr.children, Expr.remake, hbuild]
      | some receiver => simp [applyAll, Expr.children, Expr.sameAll_cons, Expr.remake, hbuild]

end Transformer

namespace Transform

variable {ε σ α β : Type} {w : Workspace σ}

/-- What follows a success goes on from there. -/
theorem bind_of_ok {x : Transform ε σ α} {f : α → Transform ε σ β} {a : α} {w' : Workspace σ}
    (hx : x w = .ok a w') : (x >>= f) w = f a w' := by
  change EStateM.bind x f w = _
  simp only [EStateM.bind, hx]

/-- Nothing follows a failure. -/
theorem bind_of_error {x : Transform ε σ α} {f : α → Transform ε σ β} {error : TransformError ε}
    {w' : Workspace σ} (hx : x w = .error error w') : (x >>= f) w = .error error w' := by
  change EStateM.bind x f w = _
  simp only [EStateM.bind, hx]

/-- Actions in sequence succeed if each of them does, the second one from where the first ended. -/
theorem bind_eq_ok_iff {x : Transform ε σ α} {f : α → Transform ε σ β} {b : β} {w' : Workspace σ} :
    (x >>= f) w = .ok b w' ↔ ∃ a w₁, x w = .ok a w₁ ∧ f a w₁ = .ok b w' := by
  cases hx : x w with
  | ok a w₁ => simp [bind_of_ok hx]
  | error error w₁ => simp [bind_of_error hx]

/-- From the workspace `w` the action ends as stated, with a value or with a failure. -/
def Ends (action : Transform ε σ α) (w : Workspace σ) (done : α → Workspace σ → Prop)
    (failed : TransformError ε → Workspace σ → Prop) : Prop :=
  match action w with
  | .ok a w' => done a w'
  | .error error w' => failed error w'

/-- The workspace that an action leaves behind, whether it failed or not. -/
def after (action : Transform ε σ α) (w : Workspace σ) : Workspace σ :=
  match action w with
  | .ok _ w' => w'
  | .error _ w' => w'

/-- The two ways to end, apart. -/
theorem ends_iff {action : Transform ε σ α} {done : α → Workspace σ → Prop}
    {failed : TransformError ε → Workspace σ → Prop} :
    action.Ends w done failed ↔
      (∀ a w', action w = .ok a w' → done a w') ∧
        ∀ error w', action w = .error error w' → failed error w' := by
  unfold Ends
  cases haction : action w <;> simp

/-- Weaker statements hold at the end if stronger ones do. -/
theorem Ends.mono {action : Transform ε σ α} {done done' : α → Workspace σ → Prop}
    {failed failed' : TransformError ε → Workspace σ → Prop} (h : action.Ends w done failed)
    (hdone : ∀ a w', done a w' → done' a w')
    (hfailed : ∀ error w', failed error w' → failed' error w') : action.Ends w done' failed' := by
  rw [ends_iff] at h ⊢
  exact ⟨fun a w' haction => hdone a w' (h.1 a w' haction),
    fun error w' haction => hfailed error w' (h.2 error w' haction)⟩

/-- A result that is given at once ends where it begins. -/
theorem ends_pure {a : α} {done : α → Workspace σ → Prop}
    {failed : TransformError ε → Workspace σ → Prop} (h : done a w) :
    Ends (pure a) w done failed := h

/-- Actions in sequence: the second starts where the first one ended. -/
theorem Ends.bind {x : Transform ε σ α} {f : α → Transform ε σ β} {done : α → Workspace σ → Prop}
    {done' : β → Workspace σ → Prop} {failed failed' : TransformError ε → Workspace σ → Prop}
    (hx : x.Ends w done failed) (hf : ∀ a w', done a w' → (f a).Ends w' done' failed')
    (hfailed : ∀ error w', failed error w' → failed' error w') :
    Ends (x >>= f) w done' failed' := by
  unfold Ends at hx ⊢
  cases hrun : x w with
  | ok a w' =>
    rw [bind_of_ok hrun]
    simp only [hrun] at hx
    exact hf a w' hx
  | error error w' =>
    rw [bind_of_error hrun]
    simp only [hrun] at hx
    exact hfailed error w' hx

/-- What holds however the action ends holds of the workspace that it leaves behind. -/
theorem Ends.after {action : Transform ε σ α} {P : Workspace σ → Prop}
    (h : action.Ends w (fun _ w' => P w') fun _ w' => P w') : P (action.after w) := by
  unfold Ends at h
  unfold Transform.after
  cases haction : action w <;> simpa [haction] using h

/-- An action in the arena that succeeds leaves the memory as it was. -/
theorem build_of_eq_ok {action : Build α} {a : α} {arena : Arena}
    (h : action w.arena = .ok a arena) :
    (build action : Transform ε σ α) w = .ok a { w with arena } := by
  simp only [build, h]

end Transform

/-- A verdict that settles a node names a node of the arena. -/
def Verdict.Within (arena : Arena) : Verdict → Prop
  | .settle e => e ∈ arena.nodes
  | .descend => True

/-- A verdict on a node leads to a relation between old and new nodes: what it settles is related to
the node, or the relation passes from the children to the node. -/
def Verdict.Leads (R : Expr → Expr → Prop) (e : Expr) : Verdict → Prop
  | .settle e' => R e e'
  | .descend => ∀ id cs, List.Forall₂ R e.children cs → R e (e.renew id cs)

/-- What the transformer knows of its workspace stays true while the arena grows, after each of its
verdicts, and is enough for it to settle on nodes of the arena only. -/
structure Transformer.Consistent {ε σ : Type} (t : Transformer ε σ) (knows : Workspace σ → Prop) :
    Prop where
  stable : ∀ w arena, knows w → w.arena.Grows arena → knows { w with arena }
  judges : ∀ e w verdict w', w.arena.Reachable → knows w → e ∈ w.arena.nodes →
    t.judge e w = .ok verdict w' → knows w' ∧ verdict.Within w'.arena

namespace Transformer

variable {ε σ : Type} {t : Transformer ε σ} {knows : Workspace σ → Prop}
  {R : Expr → Expr → Prop} {F : TransformError ε → Prop}

/-- How a transformation ends: the arena has grown, what the transformer knows is still true, and
the outcome is a node of the arena that is related to the old one. -/
def Delivers (knows : Workspace σ → Prop) (R : Expr → Expr → Prop) (F : TransformError ε → Prop)
    (w : Workspace σ) (e : Expr) (action : Transform ε σ Expr) : Prop :=
  action.Ends w
    (fun e' w' => w.arena.Grows w'.arena ∧ knows w' ∧ e' ∈ w'.arena.nodes ∧ R e e')
    fun error w' => w.arena.Grows w'.arena ∧ F error

/-- Several expressions in order are related one by one if each of them is. -/
theorem applyAll_delivers {es : List Expr} (hes : ∀ e ∈ es, ∀ w : Workspace σ, w.arena.Reachable →
      knows w → e ∈ w.arena.nodes → Delivers knows R F w e (t.apply e))
    (w : Workspace σ) (hreach : w.arena.Reachable) (hknows : knows w)
    (hmem : ∀ e ∈ es, e ∈ w.arena.nodes) :
    (t.applyAll es).Ends w
      (fun es' w' => w.arena.Grows w'.arena ∧ knows w' ∧ (∀ e' ∈ es', e' ∈ w'.arena.nodes) ∧
        List.Forall₂ R es es')
      fun error w' => w.arena.Grows w'.arena ∧ F error := by
  induction es generalizing w with
  | nil =>
    rw [applyAll]
    exact Transform.ends_pure ⟨.refl, hknows, by simp, .nil⟩
  | cons e rest ih =>
    rw [applyAll]
    refine (hes e (by simp) w hreach hknows (hmem e (by simp))).bind ?_ fun _ _ h => h
    rintro e' w₁ ⟨hgrows₁, hknows₁, he', hrel⟩
    have hrest := ih (fun x hx => hes x (by simp [hx])) w₁ (hreach.grows hgrows₁) hknows₁
      fun x hx => hgrows₁.mem (hmem x (by simp [hx]))
    refine hrest.bind ?_ fun _ _ ⟨hgrows₂, herror⟩ => ⟨hgrows₁.trans hgrows₂, herror⟩
    rintro rest' w₂ ⟨hgrows₂, hknows₂, hrest', hrels⟩
    refine Transform.ends_pure ⟨hgrows₁.trans hgrows₂, hknows₂, ?_, .cons hrel hrels⟩
    intro x hx
    rcases List.mem_cons.mp hx with rfl | hx
    · exact hgrows₂.mem he'
    · exact hrest' x hx

/-- Making a node anew on related children gives a related node. -/
theorem remake_delivers (ht : t.Consistent knows) {e : Expr} {w : Workspace σ} {cs : List Expr}
    (hreach : w.arena.Reachable) (hknows : knows w) (he : e ∈ w.arena.nodes)
    (hcs : ∀ c ∈ cs, c ∈ w.arena.nodes) (hrels : List.Forall₂ R e.children cs)
    (hleads : Verdict.Leads R e .descend) :
    Delivers knows R F w e (Transform.build (e.remake cs).build) := by
  have hlength : cs.length = e.children.length := hrels.length_eq.symm
  have hok := Expr.remake_build (hreach.closed e he).1 hlength w.arena
  have hstep := Arena.Grows.refl.build _ (Expr.remake_admitted hlength hcs)
  simp only [Build.arenaAfter, hok] at hstep
  simp only [Delivers, Transform.Ends, Transform.build_of_eq_ok hok]
  exact ⟨hstep, ht.stable w _ hknows hstep, Array.mem_push_self, hleads _ cs hrels⟩

/-- If every verdict makes the arena grow and leads to the relation, then so does the whole
transformation. It fails only as verdicts fail: no node that is made anew is refused. -/
theorem Consistent.apply_delivers (ht : t.Consistent knows)
    (hgrows : ∀ e w, w.arena.Reachable → knows w → e ∈ w.arena.nodes →
      w.arena.Grows ((t.judge e).after w).arena)
    (hleads : ∀ e w, w.arena.Reachable → knows w → e ∈ w.arena.nodes →
      (t.judge e).Ends w (fun verdict _ => verdict.Leads R e) fun error _ => F error)
    (e : Expr) (w : Workspace σ) (hreach : w.arena.Reachable) (hknows : knows w)
    (he : e ∈ w.arena.nodes) : Delivers knows R F w e (t.apply e) := by
  induction e using Expr.children_induction generalizing w with
  | step e ih =>
    have hclosed := hreach.closed e he
    have hjudge : (t.judge e).Ends w
        (fun verdict w' => w.arena.Grows w'.arena ∧ knows w' ∧ verdict.Within w'.arena ∧
          verdict.Leads R e)
        fun error w' => w.arena.Grows w'.arena ∧ F error := by
      have hgrow := hgrows e w hreach hknows he
      have hlead := Transform.ends_iff.mp (hleads e w hreach hknows he)
      rw [Transform.ends_iff]
      constructor
      · intro verdict w' hok
        have hjudges := ht.judges e w verdict w' hreach hknows he hok
        simp only [Transform.after, hok] at hgrow
        exact ⟨hgrow, hjudges.1, hjudges.2, hlead.1 verdict w' hok⟩
      · intro error w' herror
        simp only [Transform.after, herror] at hgrow
        exact ⟨hgrow, hlead.2 error w' herror⟩
    rw [Delivers, t.apply_eq hclosed.1]
    refine hjudge.bind ?_ fun _ _ h => h
    rintro verdict w₁ ⟨hgrows₁, hknows₁, hwithin, hlead⟩
    cases verdict with
    | settle e' => exact Transform.ends_pure ⟨hgrows₁, hknows₁, hwithin, hlead⟩
    | descend =>
      have hreach₁ := hreach.grows hgrows₁
      have hall := applyAll_delivers ih w₁ hreach₁ hknows₁ fun c hc => hgrows₁.mem (hclosed.2 c hc)
      refine hall.bind ?_ fun _ _ ⟨hgrows₂, herror⟩ => ⟨hgrows₁.trans hgrows₂, herror⟩
      rintro cs w₂ ⟨hgrows₂, hknows₂, hcs, hrels⟩
      have hreach₂ := hreach₁.grows hgrows₂
      have hgrows₁₂ := hgrows₁.trans hgrows₂
      by_cases hsame : Expr.sameAll cs e.children = true
      · -- Equal identities are equal nodes here, so the children are related to themselves.
        have heq : cs = e.children :=
          hreach₂.eq_of_sameAll hcs (fun c hc => hgrows₁₂.mem (hclosed.2 c hc)) hsame
        have hself : R e e := by
          have hrenew := hlead e.id cs hrels
          rwa [heq, Expr.renew_self] at hrenew
        rw [if_pos hsame]
        exact Transform.ends_pure ⟨hgrows₁₂, hknows₂, hgrows₁₂.mem he, hself⟩
      · have hnew : Delivers knows R F w₂ e (Transform.build (e.remake cs).build) :=
          remake_delivers ht hreach₂ hknows₂ (hgrows₁₂.mem he) hcs hrels hlead
        rw [if_neg hsame]
        refine hnew.mono ?_ ?_
        · rintro e' w₃ ⟨hgrows₃, h⟩
          exact ⟨hgrows₁₂.trans hgrows₃, h⟩
        · rintro error w₃ ⟨hgrows₃, h⟩
          exact ⟨hgrows₁₂.trans hgrows₃, h⟩

/-- If every verdict makes the arena grow, then so does the whole transformation. -/
theorem Consistent.apply_grows (ht : t.Consistent knows)
    (hgrows : ∀ e w, w.arena.Reachable → knows w → e ∈ w.arena.nodes →
      w.arena.Grows ((t.judge e).after w).arena)
    (e : Expr) (w : Workspace σ) (hreach : w.arena.Reachable) (hknows : knows w)
    (he : e ∈ w.arena.nodes) :
    (t.apply e).Ends w
      (fun e' w' => w.arena.Grows w'.arena ∧ knows w' ∧ e' ∈ w'.arena.nodes)
      fun _ w' => w.arena.Grows w'.arena := by
  have htrivial (e : Expr) (w : Workspace σ) : (t.judge e).Ends w
      (fun verdict _ => verdict.Leads (fun _ _ => True) e) fun _ _ => True := by
    rw [Transform.ends_iff]
    exact ⟨fun verdict _ _ => by cases verdict <;> simp [Verdict.Leads], fun _ _ _ => trivial⟩
  have hdelivers : Delivers knows (fun _ _ => True) (fun _ => True) w e (t.apply e) :=
    ht.apply_delivers hgrows (fun e w _ _ _ => htrivial e w) e w hreach hknows he
  exact hdelivers.mono (fun _ _ ⟨hgrow, hknow, hmem, _⟩ => ⟨hgrow, hknow, hmem⟩) fun _ _ h => h.1

end Transformer

end MethodBody
