import MethodBody.Arena
import MethodBody.Proofs.Occurrences

/-!
# Expressions made by constructions

The expressions of interest are those that constructions lead to from an empty arena, whatever was
refused on the way. `Construction.build_cases` says all that one construction can do to an arena.
From it follows what every node of a reachable arena satisfies, and with it every node that occurs
in an expression made there.
-/

namespace MethodBody

namespace Construction

/-- The nodes that a construction builds on, from left to right. -/
def parts : Construction Expr (List Expr) → List Expr
  | constant _ => []
  | string _ => []
  | parameter _ _ _ => []
  | thisObject => []
  | member target _ => [target]
  | assign left right => [left, right]
  | call receiver _ args => receiver.toList ++ args
  | block exprs => exprs
  | blockTyped _ exprs => exprs
  | blockWithLocals _ _ exprs => exprs
  | arrayIndex array index => [array, index]
  | newArray _ elements => elements

/-- What is asked for by a construction of a block: the type, the variables and the expressions. -/
def blockRequest? : Construction Expr (List Expr) → Option (Ty × List Variable × List Expr)
  | block exprs => some (.void, [], exprs)
  | blockTyped ty exprs => some (ty, [], exprs)
  | blockWithLocals ty locals exprs => some (ty, locals, exprs)
  | _ => none

/-- A construction that can be asked for in an arena: it builds on nodes made there. -/
def Admitted (arena : Arena) (c : Construction Expr (List Expr)) : Prop :=
  ∀ e ∈ c.parts, e ∈ arena.nodes

end Construction

/-- The request for a signature like the given one. -/
def Signature.request (sig : Signature) : SignatureRequest :=
  ⟨sig.owner, sig.name, sig.result, sig.params⟩

/-- The construction of a node like the given one on other children, given from left to right. -/
def Expr.remake : Expr → List Expr → Construction Expr (List Expr)
  | .constant _ value, _ => .constant value
  | .parameter _ ⟨slot, name, some ty⟩, _ => .parameter slot name ty
  | .parameter _ ⟨_, _, none⟩, _ => .thisObject
  | .member _ target field, cs => .member (cs.headD target) field
  | .assign _ left right, cs => .assign (cs.headD left) (cs.getD 1 right)
  | .call _ none sig _, cs => .call none sig.request cs
  | .call _ (some receiver) sig _, cs => .call (some (cs.headD receiver)) sig.request cs.tail
  | .block _ ty locals _ _, cs => .blockWithLocals ty locals cs
  | .arrayIndex _ array index, cs => .arrayIndex (cs.headD array) (cs.getD 1 index)
  | .newArray _ element _, cs => .newArray element cs

/-- The construction that makes such a node of its children. It need not be the one that the node
was made by, since a block without variables can be asked for in several ways. -/
def Expr.origin (e : Expr) : Construction Expr (List Expr) := e.remake e.children

/-- A node that is made anew builds on the given children. -/
theorem Expr.parts_remake {e : Expr} {cs : List Expr} (hlength : cs.length = e.children.length) :
    (e.remake cs).parts = cs := by
  cases e with
  | constant => exact (List.length_eq_zero_iff.mp hlength).symm
  | parameter id var =>
    obtain ⟨slot, name, ty⟩ := var
    cases ty <;> exact (List.length_eq_zero_iff.mp hlength).symm
  | member id target field =>
    obtain ⟨x, rfl⟩ := List.length_eq_one_iff.mp hlength
    rfl
  | assign | arrayIndex =>
    obtain ⟨x, y, rfl⟩ := List.length_eq_two.mp hlength
    rfl
  | block | newArray => rfl
  | call id receiver sig args =>
    cases receiver with
    | none => rfl
    | some receiver =>
      obtain ⟨x, xs, rfl⟩ := List.exists_cons_of_length_eq_add_one hlength
      rfl

/-- The construction that makes a node builds on its children. -/
theorem Expr.parts_origin (e : Expr) : e.origin.parts = e.children := parts_remake rfl

/-- What the construction of a node guarantees about it, beyond what the type of expressions
says. -/
def Expr.Sound : Expr → Prop
  | .parameter _ var => var.ty = none → var.slot = 0 ∧ var.name = "this"
  | .member _ _ field => field.owner ≠ "" ∧ field.member ≠ ""
  | .call _ _ sig args => sig.owner ≠ "" ∧ sig.name ≠ "" ∧ args.length = sig.params.length
  | .newArray _ element elements =>
    element.isVoid = false ∧ elements.length ≤ Build.maxArrayLength
  | _ => True

/-- The arena that an action leaves behind, whether it succeeded or was refused. -/
def Build.arenaAfter {α : Type} (action : Build α) (arena : Arena) : Arena :=
  match action arena with
  | .ok _ after => after
  | .error _ after => after

/-- The arenas that constructions lead to from an empty one. -/
inductive Arena.Reachable : Arena → Prop where
  | empty (tag : Nat) : Reachable (Arena.empty tag)
  | build {arena : Arena} (c : Construction Expr (List Expr)) (hreach : Reachable arena)
      (hc : c.Admitted arena) : Reachable (c.build.arenaAfter arena)

/-- The expression was made by constructions. -/
def Expr.BuilderMade (e : Expr) : Prop := ∃ arena : Arena, arena.Reachable ∧ e ∈ arena.nodes

/-- A name that passes its check is not empty, and one that does not pass is reported. -/
theorem requireName_cases (what name : String) :
    (name ≠ "" ∧ requireName what name = .ok ()) ∨
      requireName what name = .error (.emptyName what) := by
  unfold requireName
  split
  · exact .inr rfl
  · exact .inl ⟨‹_›, rfl⟩

/-- A signature that passes its checks is as requested and has names. -/
theorem SignatureRequest.make_cases (request : SignatureRequest) :
    (∃ sig, request.make = .ok sig ∧ sig.request = request ∧ sig.owner ≠ "" ∧ sig.name ≠ "") ∨
      ∃ error, request.make = .error error := by
  unfold make Signature.make
  rcases requireName_cases "method owner" request.owner with ⟨howner, hok⟩ | herror
  · rcases requireName_cases "method name" request.name with ⟨hname, hok'⟩ | herror
    · exact .inl ⟨_, by rw [hok, hok']; rfl, rfl, howner, hname⟩
    · exact .inr ⟨_, by rw [hok, herror]; rfl⟩
  · exact .inr ⟨_, by rw [herror]; rfl⟩

/-- A block is made of the given expressions, if there are any. -/
theorem Construction.blockWithLocals_cases (ty : Ty) (locals : List Variable) (exprs : List Expr)
    (arena : Arena) :
    let c : Construction Expr (List Expr) := .blockWithLocals ty locals exprs
    (∃ e, c.build arena = .ok e { arena with nodes := arena.nodes.push e } ∧
        e.id = arena.nodes.size ∧ e.children = exprs ∧ e.Sound ∧
        e.origin.build = c.build ∧ e.origin.blockRequest? = c.blockRequest?) ∨
      ∃ error, c.build arena = .error error arena := by
  intro c
  cases hlast : exprs.getLast? with
  | none =>
    refine .inr ⟨.emptyBlock, ?_⟩
    simp only [c, build, Build.blockWithLocals, hlast]
    rfl
  | some result =>
    obtain ⟨statements, rfl⟩ := List.getLast?_eq_some_iff.mp hlast
    refine .inl ⟨.block arena.nodes.size ty locals statements result, ?_, rfl, rfl, trivial, rfl,
      rfl⟩
    simp only [c, build, Build.blockWithLocals, hlast, List.dropLast_concat]
    rfl

/-- All that a construction can do: it adds one sound node, which is built on exactly the given
parts, or it is refused and leaves the arena as it was. The node can be asked for again, and shows
what was asked for if it is a block. -/
theorem Construction.build_cases (c : Construction Expr (List Expr)) (arena : Arena) :
    (∃ e, c.build arena = .ok e { arena with nodes := arena.nodes.push e } ∧
        e.id = arena.nodes.size ∧ e.children = c.parts ∧ e.Sound ∧
        e.origin.build = c.build ∧ e.origin.blockRequest? = c.blockRequest?) ∨
      ∃ error, c.build arena = .error error arena := by
  cases c with
  | constant value => exact .inl ⟨_, rfl, rfl, rfl, trivial, rfl, rfl⟩
  | string value => exact .inl ⟨_, rfl, rfl, rfl, trivial, rfl, rfl⟩
  | parameter slot name ty => exact .inl ⟨_, rfl, rfl, rfl, nofun, rfl, rfl⟩
  | thisObject => exact .inl ⟨_, rfl, rfl, rfl, fun _ => ⟨rfl, rfl⟩, rfl, rfl⟩
  | assign left right => exact .inl ⟨_, rfl, rfl, rfl, trivial, rfl, rfl⟩
  | arrayIndex array index => exact .inl ⟨_, rfl, rfl, rfl, trivial, rfl, rfl⟩
  | member target field =>
    rcases requireName_cases "member owner" field.owner with ⟨howner, hok⟩ | herror
    · rcases requireName_cases "member name" field.member with ⟨hname, hok'⟩ | herror
      · refine .inl ⟨.member arena.nodes.size target field, ?_, rfl, rfl, ⟨howner, hname⟩, rfl, rfl⟩
        rw [build, Build.member, hok, hok']
        rfl
      · exact .inr ⟨_, by rw [build, Build.member, hok, herror]; rfl⟩
    · exact .inr ⟨_, by rw [build, Build.member, herror]; rfl⟩
  | call receiver method args =>
    rcases method.make_cases with ⟨sig, hmake, rfl, howner, hname⟩ | ⟨error, hmake⟩
    · have hcall : (Construction.call receiver sig.request args).build arena =
          Build.call receiver sig args arena := by
        rw [build, hmake]
        rfl
      by_cases harity : args.length = sig.params.length
      · refine .inl ⟨.call arena.nodes.size receiver sig args, ?_, rfl, rfl,
          ⟨howner, hname, harity⟩, ?_, ?_⟩
        · rw [hcall, Build.call, if_pos harity]
          rfl
        · cases receiver <;> rfl
        · cases receiver <;> rfl
      · exact .inr ⟨_, by rw [hcall, Build.call, if_neg harity]; rfl⟩
    · exact .inr ⟨error, by rw [build, hmake]; rfl⟩
  | block exprs => exact blockWithLocals_cases .void [] exprs arena
  | blockTyped ty exprs => exact blockWithLocals_cases ty [] exprs arena
  | blockWithLocals ty locals exprs => exact blockWithLocals_cases ty locals exprs arena
  | newArray element elements =>
    by_cases hvoid : element.isVoid = true
    · exact .inr ⟨_, by rw [build, Build.newArray, if_pos hvoid]; rfl⟩
    · by_cases hlong : elements.length > Build.maxArrayLength
      · exact .inr ⟨_, by rw [build, Build.newArray, if_neg hvoid, if_pos hlong]; rfl⟩
      · refine .inl ⟨.newArray arena.nodes.size element elements, ?_, rfl, rfl, ?_, rfl, rfl⟩
        · rw [build, Build.newArray, if_neg hvoid, if_neg hlong]
          rfl
        · exact ⟨by simpa using hvoid, by omega⟩

/-- What a construction that succeeds tells about its node. -/
theorem Construction.of_build_eq_ok {c : Construction Expr (List Expr)} {arena after : Arena}
    {e : Expr} (h : c.build arena = .ok e after) :
    e.id = arena.nodes.size ∧ e.children = c.parts ∧ e.Sound ∧
      e.origin.blockRequest? = c.blockRequest? := by
  rcases c.build_cases arena with ⟨x, hok, hid, hchildren, hsound, -, hblock⟩ | ⟨error, herror⟩
  · obtain ⟨rfl, -⟩ := EStateM.Result.ok.inj (h.symm.trans hok)
    exact ⟨hid, hchildren, hsound, hblock⟩
  · rw [herror] at h
    cases h

/-- A construction that is refused leaves the arena as it was. -/
theorem Construction.of_build_eq_error {c : Construction Expr (List Expr)} {arena after : Arena}
    {error : BuildError} (h : c.build arena = .error error after) : after = arena := by
  rcases c.build_cases arena with ⟨e, hok, -⟩ | ⟨error', herror⟩
  · rw [hok] at h
    cases h
  · exact (EStateM.Result.error.inj (h.symm.trans herror)).2

/-- A node shows a request for a block exactly if it is a block, and then its statements and its
result are the expressions of the request. -/
theorem Expr.blockRequest?_origin {e : Expr} {ty : Ty} {locals : List Variable}
    {exprs : List Expr} :
    e.origin.blockRequest? = some (ty, locals, exprs) ↔
      ∃ id statements result, e = .block id ty locals statements result ∧
        statements ++ [result] = exprs := by
  cases e with
  | block id ty' locals' statements result =>
    constructor
    · intro h
      cases h
      exact ⟨id, statements, result, rfl, rfl⟩
    · rintro ⟨id, statements, result, heq, rfl⟩
      cases heq
      rfl
  | parameter id var =>
    obtain ⟨slot, name, ty⟩ := var
    cases ty <;> simp [origin, remake, Construction.blockRequest?]
  | call id receiver sig args =>
    cases receiver <;> simp [origin, remake, Construction.blockRequest?]
  | constant | member | assign | arrayIndex | newArray =>
    simp [origin, remake, Construction.blockRequest?]

namespace Arena

/-- Every node is sound and has its children in the arena. -/
def Closed (arena : Arena) : Prop :=
  ∀ e ∈ arena.nodes, e.Sound ∧ ∀ c ∈ e.children, c ∈ arena.nodes

/-- A construction keeps an arena closed. -/
theorem Closed.build {arena : Arena} (h : arena.Closed) {c : Construction Expr (List Expr)}
    (hc : c.Admitted arena) : (c.build.arenaAfter arena).Closed := by
  rcases c.build_cases arena with ⟨e, hok, -, hchildren, hsound, -⟩ | ⟨error, herror⟩
  · simp only [Build.arenaAfter, hok]
    intro x hx
    simp only [Array.mem_push] at hx ⊢
    rcases hx with hold | rfl
    · exact ⟨(h x hold).1, fun y hy => .inl ((h x hold).2 y hy)⟩
    · rw [hchildren]
      exact ⟨hsound, fun y hy => .inl (hc y hy)⟩
  · simpa only [Build.arenaAfter, herror] using h

/-- Every reachable arena is closed. -/
theorem Reachable.closed {arena : Arena} (h : arena.Reachable) : arena.Closed := by
  induction h with
  | empty tag => simp [Closed, Arena.empty]
  | build c _ hc ih => exact ih.build hc

/-- In a closed arena every node that occurs in an expression of the arena is sound. -/
theorem Closed.every_sound {arena : Arena} (h : arena.Closed) (e : Expr) (he : e ∈ arena.nodes) :
    e.Every Expr.Sound := by
  induction e using Expr.children_induction with
  | step e ih =>
    rw [Expr.every_iff]
    exact ⟨(h e he).1, fun c hc => ih c hc ((h e he).2 c hc)⟩

end Arena

/-- Every node that occurs in an expression made by constructions is sound. -/
theorem Expr.BuilderMade.every_sound {e : Expr} (h : e.BuilderMade) : e.Every Expr.Sound := by
  obtain ⟨arena, hreach, he⟩ := h
  exact hreach.closed.every_sound e he

/-! ## A sample

The body of a method with an array parameter, `xs[0] = this.total(new int[] { 0 })`, which goes
through most forms of code. The name of the parameter is left open. -/

namespace Sample

/-- The method that the sample calls. -/
def total : Signature := ⟨"Bank", "total", .int, [.array .int]⟩

/-- The parameter that the sample assigns to. -/
def values (name : String) : Variable := .declared 1 name (.array .int)

/-- The object that the method runs on. -/
def self : Expr := .parameter 0 .thisObject

/-- A use of the parameter. -/
def array (name : String) : Expr := .parameter 1 (values name)

/-- The constant, which is both an index and an element. -/
def zero : Expr := .constant 2 (.int 0)

/-- The place that the sample assigns to. -/
def element (name : String) : Expr := .arrayIndex 3 (array name) zero

/-- The array literal with one element. -/
def literal : Expr := .newArray 4 .int [zero]

/-- The call that gives the value. -/
def sum : Expr := .call 5 (some self) total [literal]

/-- The one statement of the sample. -/
def store (name : String) : Expr := .assign 6 (element name) sum

/-- The sample as a method body. -/
def body (name : String) : Expr := .block 7 .void [] [] (store name)

/-- All nodes of the sample, in the order in which they are made. -/
def nodes (name : String) : Array Expr :=
  #[self, array name, zero, element name, literal, sum, store name, body name]

/-- The sample is made by constructions. -/
theorem reachable (name : String) : (Arena.mk 0 (nodes name)).Reachable := by
  have hself : (Arena.mk 0 #[self]).Reachable := .build .thisObject (.empty 0)
    (by simp [Construction.Admitted, Construction.parts])
  have harray : (Arena.mk 0 #[self, array name]).Reachable :=
    hself.build (.parameter 1 name (.array .int))
      (by simp [Construction.Admitted, Construction.parts])
  have hzero : (Arena.mk 0 #[self, array name, zero]).Reachable := harray.build (.constant (.int 0))
    (by simp [Construction.Admitted, Construction.parts])
  have helement : (Arena.mk 0 #[self, array name, zero, element name]).Reachable :=
    hzero.build (.arrayIndex (array name) zero)
      (by simp [Construction.Admitted, Construction.parts])
  have hliteral : (Arena.mk 0 #[self, array name, zero, element name, literal]).Reachable :=
    helement.build (.newArray .int [zero]) (by simp [Construction.Admitted, Construction.parts])
  have hsum : (Arena.mk 0 #[self, array name, zero, element name, literal, sum]).Reachable :=
    hliteral.build (.call (some self) ⟨"Bank", "total", .int, [.array .int]⟩ [literal])
      (by simp [Construction.Admitted, Construction.parts])
  have hstore : (Arena.mk 0
      #[self, array name, zero, element name, literal, sum, store name]).Reachable :=
    hsum.build (.assign (element name) sum) (by simp [Construction.Admitted, Construction.parts])
  exact hstore.build (.block [store name]) (by simp [Construction.Admitted, Construction.parts])

/-- Constructions make the assignment of the sample. -/
theorem builderMade_store (name : String) : (store name).BuilderMade :=
  ⟨_, reachable name, by simp [nodes]⟩

/-- Constructions make the body of the sample. -/
theorem builderMade_body (name : String) : (body name).BuilderMade :=
  ⟨_, reachable name, by simp [nodes]⟩

end Sample

end MethodBody
