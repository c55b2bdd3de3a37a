import MethodBody.Proofs.Frontier

/-!
# What holds of every node

Nodes come from constructions and from transformations, and a transformer may in turn use both to
reach its verdicts. `Arena.Run` is a sequence of such steps of any length, in which constructions
may be refused and transformations may fail. A transformation makes some nodes without any check,
but it never makes one that a construction would have refused. So a run leads only where
constructions lead, and every node keeps what its construction guarantees.
-/

namespace MethodBody

/-- One arena comes from another by constructions and transformations. A transformer is free in its
memory and its failures, and each of its verdicts comes by constructions and transformations as
well. What it knows of its workspace makes sure that it settles on nodes of the arena only. -/
inductive Arena.Run : Arena → Arena → Prop where
  | done (arena : Arena) : Run arena arena
  | build {start arena : Arena} (c : Construction Expr (List Expr)) (h : Run start arena)
      (hc : c.Admitted arena) : Run start (c.build.arenaAfter arena)
  | transform {start arena : Arena} {ε σ : Type} (t : Transformer ε σ) (knows : Workspace σ → Prop)
      (memory : σ) (e : Expr) (h : Run start arena) (ht : t.Consistent knows)
      (hruns : ∀ e w, w.arena.Reachable → knows w → e ∈ w.arena.nodes →
        Run w.arena ((t.judge e).after w).arena)
      (hknows : knows ⟨arena, memory⟩) (he : e ∈ arena.nodes) :
      Run start ((t.apply e).after ⟨arena, memory⟩).arena

/-- A transformer that touches the arena by constructions and transformations only. -/
structure Transformer.Honest {ε σ : Type} (t : Transformer ε σ) (knows : Workspace σ → Prop) :
    Prop extends Transformer.Consistent t knows where
  runs : ∀ e w, w.arena.Reachable → knows w → e ∈ w.arena.nodes →
    w.arena.Run ((t.judge e).after w).arena

namespace Arena

variable {arena later : Arena}

/-- Runs lead where constructions lead. -/
theorem Run.grows (h : arena.Run later) (hreach : arena.Reachable) : arena.Grows later := by
  induction h with
  | done arena => exact .refl
  | build c _ hc ih => exact (ih hreach).build c hc
  | @transform start arena ε σ t knows memory e _ ht _ hknows he ih ihruns =>
    have hgrows := ih hreach
    have happly := ht.apply_grows (fun x w hw hk hx => ihruns x w hw hk hx hw) e ⟨arena, memory⟩
      (hreach.grows hgrows) hknows he
    have hends : (t.apply e).Ends ⟨arena, memory⟩ (fun _ w => arena.Grows w.arena)
        fun _ w => arena.Grows w.arena := happly.mono (fun _ _ h => h.1) fun _ _ h => h
    exact hgrows.trans hends.after

/-- What is made from an empty arena is reachable. -/
theorem Run.reachable {tag : Nat} (h : (Arena.empty tag).Run arena) : arena.Reachable :=
  (Reachable.empty tag).grows (h.grows (.empty tag))

/-- All nodes that occur below a node stand before it, so no node occurs below itself. -/
theorem Reachable.below_before (h : arena.Reachable) {i : Nat} {e c : Expr}
    (he : arena.nodes[i]? = some e) (hc : c ∈ e.children) :
    c.Every fun x => x.id < i ∧ arena.nodes[x.id]? = some x := by
  induction c using Expr.children_induction generalizing i e with
  | step c ih =>
    obtain ⟨hlt, hfound⟩ := h.children_before he hc
    rw [Expr.every_iff]
    refine ⟨⟨hlt, hfound⟩, fun x hx o ho => ?_⟩
    obtain ⟨hbelow, hat⟩ := ih x hx hfound hx o ho
    exact ⟨Nat.lt_trans hbelow hlt, hat⟩

/-- What holds of the node `e` at position `i`. -/
structure WellMade (arena : Arena) (i : Nat) (e : Expr) : Prop where
  /-- The position is the identity. -/
  id_eq : e.id = i
  /-- All nodes below stand before, so the tree is finite and no node occurs below itself. -/
  below : ∀ c ∈ e.children, c.Every fun x => x.id < i ∧ arena.nodes[x.id]? = some x
  /-- The node was made by a construction from the nodes that stand before it. -/
  made : ∃ c : Construction Expr (List Expr),
    c.Admitted (arena.before i) ∧ c.build (arena.before i) = .ok e (arena.before (i + 1))
  /-- A call has names, and as many arguments as its signature has parameters. -/
  call : ∀ id receiver sig args, e = .call id receiver sig args →
    sig.owner ≠ "" ∧ sig.name ≠ "" ∧ args.length = sig.params.length
  /-- A field access has names. -/
  member : ∀ id target field, e = .member id target field →
    field.owner ≠ "" ∧ field.member ≠ ""
  /-- An array literal has elements of a type other than `void`, and not too many of them. -/
  newArray : ∀ id element elements, e = .newArray id element elements →
    element.isVoid = false ∧ elements.length ≤ 2147483647
  /-- Whatever construction made a block, it asked for a block, and the expressions that were given
  to it are the statements followed by the result. -/
  block : ∀ id ty locals statements result, e = .block id ty locals statements result →
    ∀ c : Construction Expr (List Expr),
      c.build (arena.before i) = .ok e (arena.before (i + 1)) →
      ∃ exprs, c.blockRequest? = some (ty, locals, exprs) ∧ exprs ≠ [] ∧
        exprs = statements ++ [result]
  /-- A variable without a type is the object that the method runs on. -/
  parameter : ∀ id var, e = .parameter id var → var.ty = none → var.slot = 0 ∧ var.name = "this"

/-- Every node of a reachable arena is well made. -/
theorem Reachable.wellMade (h : arena.Reachable) {i : Nat} {e : Expr}
    (he : arena.nodes[i]? = some e) : arena.WellMade i e := by
  have hmade := h.madeAt he
  have hsound := hmade.spec.2.1
  refine ⟨h.id_eq he, fun c hc => h.below_before he hc, ⟨e.origin, hmade.admitted, hmade.build_eq⟩,
    ?_, ?_, ?_, ?_, ?_⟩
  · rintro id receiver sig args rfl
    exact hsound
  · rintro id target field rfl
    exact hsound
  · rintro id element elements rfl
    exact hsound
  · rintro id ty locals statements result rfl c hc
    obtain ⟨-, -, -, hrequest⟩ := Construction.of_build_eq_ok hc
    refine ⟨statements ++ [result], ?_, by simp, rfl⟩
    rw [← hrequest]
    exact Expr.blockRequest?_origin.mpr ⟨id, statements, result, rfl, rfl⟩
  · rintro id var rfl
    exact hsound

/-- After any run from an empty arena every node is well made. A construction of a block that
succeeds adds a block whose statements and result are the given expressions, of which there is at
least one. A refused construction leaves the arena as it was, and no node is changed by whatever
comes later. -/
theorem Run.representation_invariant {tag : Nat} (h : (Arena.empty tag).Run arena) :
    (∀ (i : Nat) (e : Expr), arena.nodes[i]? = some e → arena.WellMade i e) ∧
    (∀ (c : Construction Expr (List Expr)) e after ty locals exprs,
      c.build arena = .ok e after → c.blockRequest? = some (ty, locals, exprs) →
      exprs ≠ [] ∧ ∃ statements result,
        e = .block arena.nodes.size ty locals statements result ∧
          exprs = statements ++ [result]) ∧
    (∀ (c : Construction Expr (List Expr)) error after,
      c.build arena = .error error after → after = arena) ∧
    ∀ later, arena.Run later → ∀ (i : Nat) (e : Expr),
      arena.nodes[i]? = some e → later.nodes[i]? = some e := by
  have hreach := h.reachable
  refine ⟨fun i e he => hreach.wellMade he, fun c e after ty locals exprs hok hrequest => ?_,
    fun c error after herror => Construction.of_build_eq_error herror,
    fun later hrun i e he => (hrun.grows hreach).getElem? he⟩
  obtain ⟨hid, -, -, horigin⟩ := Construction.of_build_eq_ok hok
  obtain ⟨id, statements, result, rfl, rfl⟩ :=
    Expr.blockRequest?_origin.mp (horigin.trans hrequest)
  obtain rfl : id = arena.nodes.size := hid
  exact ⟨by simp, statements, result, rfl, rfl⟩

end Arena

namespace Transformer

variable {ε σ : Type} {knows : Workspace σ → Prop}

/-- Each verdict of an honest transformer makes the arena grow. -/
theorem Honest.grows {t : Transformer ε σ} (h : t.Honest knows) (e : Expr) (w : Workspace σ)
    (hreach : w.arena.Reachable) (hknows : knows w) (he : e ∈ w.arena.nodes) :
    w.arena.Grows ((t.judge e).after w).arena :=
  (h.runs e w hreach hknows he).grows hreach

/-- An honest transformer that succeeds delivers a node of the arena, which has grown. -/
theorem Honest.apply_ok {t : Transformer ε σ} (h : t.Honest knows) {e e' : Expr}
    {w w' : Workspace σ} (hreach : w.arena.Reachable) (hknows : knows w) (he : e ∈ w.arena.nodes)
    (hok : t.apply e w = .ok e' w') :
    w.arena.Grows w'.arena ∧ knows w' ∧ e' ∈ w'.arena.nodes :=
  (Transform.ends_iff.mp (h.apply_grows h.grows e w hreach hknows he)).1 e' w' hok

/-- A transformer is honest if each of its verdicts comes by a run and names a node of the arena. -/
theorem Honest.of_ends {t : Transformer ε σ}
    (hstable : ∀ w arena, knows w → w.arena.Grows arena → knows { w with arena })
    (hjudge : ∀ e w, w.arena.Reachable → knows w → e ∈ w.arena.nodes →
      (t.judge e).Ends w
        (fun verdict w' => w.arena.Run w'.arena ∧ knows w' ∧ verdict.Within w'.arena)
        fun _ w' => w.arena.Run w'.arena) : t.Honest knows := by
  refine ⟨⟨hstable, ?_⟩, ?_⟩
  · intro e w verdict w' hreach hknows he hok
    exact ((Transform.ends_iff.mp (hjudge e w hreach hknows he)).1 verdict w' hok).2
  · intro e w hreach hknows he
    have hruns : (t.judge e).Ends w (fun _ w' => w.arena.Run w'.arena)
        fun _ w' => w.arena.Run w'.arena :=
      (hjudge e w hreach hknows he).mono (fun _ _ h => h.1) fun _ _ h => h
    exact hruns.after

/-- What an action returns can be settled on. -/
theorem ends_settle {action : Transform ε σ Expr} {w : Workspace σ}
    (h : action.Ends w (fun e' w' => w.arena.Run w'.arena ∧ knows w' ∧ e' ∈ w'.arena.nodes)
      fun _ w' => w.arena.Run w'.arena) :
    (Verdict.settle <$> action).Ends w
      (fun verdict w' => w.arena.Run w'.arena ∧ knows w' ∧ verdict.Within w'.arena)
      fun _ w' => w.arena.Run w'.arena := by
  rw [map_eq_pure_bind]
  exact h.bind (fun _ _ h => Transform.ends_pure h) fun _ _ h => h

/-- A construction may be carried out in the course of a transformation. -/
theorem ends_build {w : Workspace σ} (c : Construction Expr (List Expr))
    (hc : c.Admitted w.arena)
    (hstable : ∀ arena, w.arena.Grows arena → knows { w with arena }) :
    (Transform.build c.build : Transform ε σ Expr).Ends w
      (fun e' w' => w.arena.Run w'.arena ∧ knows w' ∧ e' ∈ w'.arena.nodes)
      fun _ w' => w.arena.Run w'.arena := by
  have hrun : w.arena.Run (c.build.arenaAfter w.arena) := .build c (.done _) hc
  have hgrows : w.arena.Grows (c.build.arenaAfter w.arena) := .build c .refl hc
  rcases c.build_cases w.arena with ⟨e, hok, -⟩ | ⟨error, herror⟩
  · simp only [Build.arenaAfter, hok] at hrun hgrows
    simp only [Transform.Ends, Transform.build, hok]
    exact ⟨hrun, hstable _ hgrows, Array.mem_push_self⟩
  · simp only [Build.arenaAfter, herror] at hrun
    simp only [Transform.Ends, Transform.build, herror]
    exact hrun

/-- A transformer that asks a hook is honest if the hook is. -/
theorem atFrontier_honest {hook : Expr → Transform ε σ Expr}
    (hstable : ∀ w arena, knows w → w.arena.Grows arena → knows { w with arena })
    (hhook : ∀ e w, w.arena.Reachable → knows w → e ∈ w.arena.nodes →
      (hook e).Ends w
        (fun e' w' => w.arena.Run w'.arena ∧ knows w' ∧ e' ∈ w'.arena.nodes)
        fun _ w' => w.arena.Run w'.arena) : (atFrontier hook).Honest knows := by
  refine .of_ends hstable fun e w hreach hknows he => ?_
  have hsettle := ends_settle (hhook e w hreach hknows he)
  cases e with
  | assign | member => exact Transform.ends_pure ⟨.done w.arena, hknows, trivial⟩
  | constant | parameter | call | block | arrayIndex | newArray => exact hsettle

/-- Replacing integers makes constants and nothing else. -/
theorem replaceInt_honest (old new : Int32) :
    (replaceInt old new : Transformer ε σ).Honest fun _ => True := by
  refine atFrontier_honest (fun _ _ _ _ => trivial) fun e w _ _ he => ?_
  have hkept : Transform.Ends (pure e : Transform ε σ Expr) w
      (fun e' w' => w.arena.Run w'.arena ∧ True ∧ e' ∈ w'.arena.nodes)
      fun _ w' => w.arena.Run w'.arena := Transform.ends_pure ⟨.done _, trivial, he⟩
  unfold replacement
  split
  · split
    · exact ends_build (.constant (.int new)) (by simp [Construction.Admitted, Construction.parts])
        fun _ _ => trivial
    · exact hkept
  · exact hkept

end Transformer

/-! ## A second sample

The field of an object is assigned to, where both are the same constant, so that a transformation of
the constant passes through a field access and an assignment. -/

namespace Sample

/-- The constant. -/
def one : Expr := .constant 0 (.int 1)

/-- The field. -/
def value : Field := ⟨"Box", "value", .int⟩

/-- The access `1.value`. -/
def read : Expr := .member 1 one value

/-- The assignment `1.value = 1`. -/
def write : Expr := .assign 2 read one

/-- All nodes of the second sample. -/
def box : Arena := ⟨0, #[one, read, write]⟩

/-- One construction makes the constant of the second sample. -/
theorem run_one : (Arena.empty 0).Run ⟨0, #[one]⟩ := .build (.constant (.int 1)) (.done _)
  (by simp [Construction.Admitted, Construction.parts])

/-- The second sample is made by constructions. -/
theorem run_box : (Arena.empty 0).Run box := by
  have hread : (Arena.empty 0).Run ⟨0, #[one, read]⟩ := .build (.member one value) run_one
    (by simp [Construction.Admitted, Construction.parts])
  exact .build (.assign read one) hread
    (by simp [Construction.Admitted, Construction.parts])

/-- The arena of the second sample is reachable. -/
theorem reachable_box : box.Reachable := run_box.reachable

/-- The read on a new constant. -/
def readTwo : Expr := .member 4 (.constant 3 (.int 2)) value

/-- The assignment `2.value = 2`. -/
def writeTwo : Expr := .assign 6 readTwo (.constant 5 (.int 2))

/-- The second sample after its constant was replaced, which makes four nodes. -/
def boxAfter : Arena :=
  ⟨0, #[one, read, write, .constant 3 (.int 2), readTwo, .constant 5 (.int 2), writeTwo]⟩

/-- Replacing the constant makes both nodes above it anew. -/
theorem apply_write : (Transformer.replaceInt 1 2 : Transformer Empty Unit).apply write ⟨box, ()⟩ =
    .ok writeTwo ⟨boxAfter, ()⟩ := by
  rw [Transformer.replaceInt]
  rw [write, Transformer.apply_assign, read, Transformer.apply_member,
    Transformer.apply_of_not_inner (e := one) rfl]
  rfl

/-- So the arena that is left was made by constructions and a transformation. -/
theorem run_boxAfter : (Arena.empty 0).Run boxAfter := by
  have hhonest : (Transformer.replaceInt 1 2 : Transformer Empty Unit).Honest fun _ => True :=
    Transformer.replaceInt_honest 1 2
  have hrun := Arena.Run.transform _ (fun _ => True) () write run_box hhonest.toConsistent
    hhonest.runs trivial (by simp [box])
  rwa [Transform.after, apply_write] at hrun

/-- A block of the new assignment and the new read. -/
def boxBlock : Expr := .block 9 .int [] [writeTwo] readTwo

/-- The nodes of the second sample, the object that the method runs on, and a string. -/
def boxNodes : Array Expr :=
  (boxAfter.nodes.push (.parameter 7 .thisObject)).push (.constant 8 (.str "box"))

/-- The second sample with the block. -/
def boxFull : Arena := ⟨0, boxNodes.push boxBlock⟩

/-- Its nodes come from constructions and from a transformation. -/
theorem run_boxFull : (Arena.empty 0).Run boxFull := by
  have hself : (Arena.empty 0).Run ⟨0, boxAfter.nodes.push (.parameter 7 .thisObject)⟩ :=
    .build .thisObject run_boxAfter (by simp [Construction.Admitted, Construction.parts])
  have hstring : (Arena.empty 0).Run ⟨0, boxNodes⟩ :=
    .build (.string "box") hself (by simp [Construction.Admitted, Construction.parts])
  exact .build (.blockTyped .int [writeTwo, readTwo]) hstring
    (by simp [Construction.Admitted, Construction.parts, boxNodes, boxAfter])

end Sample

/-- The field access that the transformation of the sample makes without a check has names, the
variable without a type is the object that the method runs on, and the block could not have been
asked for with other expressions than its own. -/
theorem Arena.Run.representation_invariant_box :
    (Arena.empty 0).Run Sample.boxFull ∧ Sample.boxFull.nodes.size = 10 ∧
      Sample.boxFull.nodes[4]? = some (.member 4 (.constant 3 (.int 2)) Sample.value) ∧
      (Expr.constant 3 (.int 2)).Every (fun x => x.id < 4) ∧
      Sample.value.owner ≠ "" ∧ Sample.value.member ≠ "" ∧
      Sample.boxFull.nodes[7]? = some (.parameter 7 .thisObject) ∧
      Variable.thisObject.slot = 0 ∧ Variable.thisObject.name = "this" ∧
      Sample.boxFull.nodes[9]? = some (.block 9 .int [] [Sample.writeTwo] Sample.readTwo) ∧
      ∀ exprs, (Construction.blockTyped .int exprs).build (Sample.boxFull.before 9) =
          .ok Sample.boxBlock (Sample.boxFull.before 10) ↔
        exprs = [Sample.writeTwo, Sample.readTwo] := by
  have hinvariant := Sample.run_boxFull.representation_invariant.1
  have hread : Sample.boxFull.nodes[4]? =
      some (.member 4 (.constant 3 (.int 2)) Sample.value) := rfl
  have hself : Sample.boxFull.nodes[7]? = some (.parameter 7 .thisObject) := rfl
  have hblock : Sample.boxFull.nodes[9]? =
      some (.block 9 .int [] [Sample.writeTwo] Sample.readTwo) := rfl
  obtain ⟨howner, hname⟩ := (hinvariant 4 _ hread).member _ _ _ rfl
  obtain ⟨hslot, hthis⟩ := (hinvariant 7 _ hself).parameter _ _ rfl rfl
  refine ⟨Sample.run_boxFull, rfl, hread, ?_, howner, hname, hself, hslot, hthis, hblock, ?_⟩
  · have hbelow := (hinvariant 4 _ hread).below (.constant 3 (.int 2)) (by simp [Expr.children])
    exact fun o ho => (hbelow o ho).1
  · refine fun exprs => ⟨fun hbuild => ?_, ?_⟩
    · obtain ⟨exprs', hrequest, -, rfl⟩ := (hinvariant 9 _ hblock).block _ _ _ _ _ rfl _ hbuild
      cases hrequest
      rfl
    · rintro rfl
      rfl

end MethodBody
