import MethodBody.Expr.Printer
import MethodBody.Proofs.Legibility
import MethodBody.Proofs.Occurrences

/-!
# The text of an expression tells the expression

Two expressions whose names hold no separators have the same text exactly if they are the same but
for the identities of their nodes. Names are written as they are, so they have to be clean, and
floating-point literals are left out. The first characters of a text tell the kind of the node. From
then on two nodes of one kind are read side by side, part after part, and `Clear` states what is
known at the end, with anything that may follow. There is one lemma for each form of node.
-/

namespace MethodBody.Expr

open Text

/-- The names at a node are clean, and its literal is plain. -/
def Legible : Expr → Prop
  | constant _ value => value.Plain
  | parameter _ var => var.Clean
  | member _ _ field => field.Clean
  | call _ _ sig _ => sig.Clean
  | block _ ty locals _ _ => ty.Clean ∧ ∀ var ∈ locals, var.Clean
  | newArray _ element _ => element.Clean
  | assign .. => True
  | arrayIndex .. => True

mutual

/-- The expression with all identities taken away. -/
def unnumbered : Expr → Expr
  | assign _ left right => assign 0 left.unnumbered right.unnumbered
  | constant _ value => constant 0 value
  | parameter _ var => parameter 0 var
  | member _ target field => member 0 target.unnumbered field
  | call _ none sig args => call 0 none sig (unnumberedAll args)
  | call _ (some receiver) sig args => call 0 (some receiver.unnumbered) sig (unnumberedAll args)
  | block _ ty locals statements result =>
    block 0 ty locals (unnumberedAll statements) result.unnumbered
  | arrayIndex _ array index => arrayIndex 0 array.unnumbered index.unnumbered
  | newArray _ element elements => newArray 0 element (unnumberedAll elements)

/-- Several expressions with all identities taken away. -/
def unnumberedAll : List Expr → List Expr
  | [] => []
  | e :: rest => e.unnumbered :: unnumberedAll rest

end

/-- A call loses its number with its receiver and its arguments. -/
theorem unnumbered_call {id : NodeId} (receiver : Option Expr) (sig : Signature)
    (args : List Expr) : (call id receiver sig args).unnumbered =
      call 0 (receiver.map unnumbered) sig (unnumberedAll args) := by
  cases receiver <;> rfl

/-- Expressions lose their numbers one by one. -/
theorem unnumberedAll_eq (es : List Expr) : unnumberedAll es = es.map unnumbered := by
  induction es with
  | nil => rfl
  | cons e rest ih => rw [unnumberedAll, ih, List.map_cons]

/-- The text does not show identities. -/
theorem text_unnumbered (e : Expr) : e.unnumbered.text = e.text := by
  induction e using children_induction with
  | step e ih =>
    have hall (es : List Expr) (hes : ∀ x ∈ es, x ∈ e.children) :
        spaced (unnumberedAll es) = spaced es := by
      induction es with
      | nil => rfl
      | cons x rest ihrest =>
        rw [unnumberedAll, spaced, spaced, ih x (hes x (by simp)),
          ihrest fun y hy => hes y (by simp [hy])]
    cases e with
    | constant id value => rfl
    | parameter id var => rfl
    | member id target field =>
      rw [unnumbered, text, text, ih target (by simp [children])]
    | assign id left right =>
      rw [unnumbered, text, text, ih left (by simp [children]), ih right (by simp [children])]
    | arrayIndex id array index =>
      rw [unnumbered, text, text, ih array (by simp [children]), ih index (by simp [children])]
    | newArray id element elements =>
      rw [unnumbered, text, text, hall elements fun x hx => hx, unnumberedAll_eq, List.length_map]
    | block id ty locals statements result =>
      rw [unnumbered, text, text, hall statements fun x hx => by simp [children, hx],
        ih result (by simp [children])]
    | call id receiver sig args =>
      have hargs := hall args fun x hx => by simp [children, hx]
      cases receiver with
      | none => rw [unnumbered, text, text, hargs]
      | some receiver => rw [unnumbered, text, text, hargs, ih receiver (by simp [children])]

/-! ## Texts as lists of characters

The children of a node stand each after a space, between what opens the node and what closes it. -/

/-- Expressions are written one after the other, each after a space. -/
theorem toList_spaced (es : List Expr) :
    (spaced es).toList = es.flatMap fun e => [' '] ++ e.text.toList := by
  induction es with
  | nil => rfl
  | cons e rest ih =>
    rw [spaced, String.toList_append, String.toList_append, ih, List.flatMap_cons]
    rfl

section Forms

variable {id : NodeId}

/-- The text of an assignment has its two sides. -/
theorem toList_assign (left right : Expr) : (assign id left right).text.toList =
    '(' :: '=' :: ((spaced [left, right]).toList ++ [')']) := by
  simp [text, spaced]

/-- The text of an element has the array and the index. -/
theorem toList_arrayIndex (array index : Expr) : (arrayIndex id array index).text.toList =
    '(' :: '[' :: ']' :: ((spaced [array, index]).toList ++ [')']) := by
  simp [text, spaced]

/-- The text of a field access has the target and the field. -/
theorem toList_member (target : Expr) (field : Field) : (member id target field).text.toList =
    '(' :: '.' :: ' ' :: (target.text.toList ++ ' ' :: (field.text.toList ++ [')'])) := by
  simp [text]

/-- The word before the receiver of a call, if it has one. -/
def receiverMark : Option Expr → List Char
  | none => []
  | some _ => [' ', 'o', 'n']

/-- The text of a call has the signature, a mark for the receiver, and all operands. -/
theorem toList_call (receiver : Option Expr) (sig : Signature) (args : List Expr) :
    (call id receiver sig args).text.toList = "(call ".toList ++ (sig.text.toList ++
      (receiverMark receiver ++ ((spaced (receiver.toList ++ args)).toList ++ [')']))) := by
  cases receiver <;> simp [text, spaced, receiverMark]

/-- The text of an array literal has the element type, the length and the elements. -/
theorem toList_newArray (element : Ty) (elements : List Expr) :
    (newArray id element elements).text.toList = "(new ".toList ++ (element.text.toList ++ '[' ::
      ((toString elements.length).toList ++ ']' :: ((spaced elements).toList ++ [')']))) := by
  simp [text]

/-- The text of a block has the type, the variables, the statements and the result. -/
theorem toList_block (ty : Ty) (locals : List Variable) (statements : List Expr) (result : Expr) :
    (block id ty locals statements result).text.toList = "(block:".toList ++ (ty.text.toList ++
      ((localsText locals).toList ++ ((spaced (statements ++ [result])).toList ++ [')']))) := by
  simp [text, toList_spaced]

end Forms

/-- The kind of the expression whose text begins a list of characters. -/
def kindOfText : List Char → Kind
  | '(' :: '=' :: _ => .assign
  | '(' :: '.' :: _ => .member
  | '(' :: 'c' :: _ => .call
  | '(' :: 'b' :: _ => .block
  | '(' :: '[' :: _ => .arrayIndex
  | '(' :: _ => .newArray
  | '$' :: _ => .parameter
  | _ => .constant

/-- A text that begins neither with a parenthesis nor with a dollar sign is that of a constant. -/
theorem kindOfText_of_ne {c : Char} (hparen : c ≠ '(') (hdollar : c ≠ '$') (r : List Char) :
    kindOfText (c :: r) = .constant := by
  unfold kindOfText
  split <;> simp_all

/-- The first characters tell the kind, and none begins like a list of variables or like the word
before a receiver. -/
theorem exists_text_eq_cons {e : Expr} (he : e.Legible) :
    ∃ c rest, e.text.toList = c :: rest ∧ (c ≠ '[' ∧ c ≠ 'o') ∧
      ∀ r, kindOfText (c :: (rest ++ r)) = e.kind := by
  cases e with
  | assign id left right => exact ⟨_, _, toList_assign left right, by decide, fun _ => rfl⟩
  | arrayIndex id array index =>
    exact ⟨_, _, toList_arrayIndex array index, by decide, fun _ => rfl⟩
  | member id target field => exact ⟨_, _, toList_member target field, by decide, fun _ => rfl⟩
  | newArray id element elements =>
    exact ⟨_, _, toList_newArray element elements, by decide, fun _ => rfl⟩
  | block id ty locals statements result =>
    exact ⟨_, _, toList_block ty locals statements result, by decide, fun _ => rfl⟩
  | call id receiver sig args =>
    exact ⟨_, _, toList_call receiver sig args, by decide, fun _ => rfl⟩
  | parameter id var => exact ⟨_, _, var.toList_text, by decide, fun _ => rfl⟩
  | constant id value =>
    obtain ⟨c, rest, hc, hform⟩ := Literal.text_eq_cons (show value.Plain from he)
    have hne (d : Char) (hd : Literal.Form.ofInitial? d = none) : c ≠ d :=
      Literal.initial_ne he hform hd
    exact ⟨c, rest, hc, ⟨hne _ (by decide), hne _ (by decide)⟩,
      fun r => kindOfText_of_ne (hne _ (by decide)) (hne _ (by decide)) _⟩

/-- The kind of a legible expression is read off its text. -/
theorem kind_eq_of_text {e e' : Expr} (he : e.Legible) (he' : e'.Legible) {r s : List Char}
    (h : e.text.toList ++ r = e'.text.toList ++ s) : e.kind = e'.kind := by
  obtain ⟨c, rest, hc, -, hkind⟩ := exists_text_eq_cons he
  obtain ⟨c', rest', hc', -, hkind'⟩ := exists_text_eq_cons he'
  rw [hc, hc'] at h
  rw [← hkind r, ← hkind' s]
  exact congrArg kindOfText h

/-! ## What the text of an expression tells -/

/-- The text tells the expression, but for identities, and where it ends. -/
def Clear (e : Expr) : Prop :=
  ∀ (e' : Expr) (r s : List Char), e'.Every Legible → EndsItem r → EndsItem s →
    e.text.toList ++ r = e'.text.toList ++ s → e.unnumbered = e'.unnumbered ∧ r = s

/-- Only expressions of the same kind have to be told apart by more than their first characters. -/
theorem clear_of_kind {e : Expr} (he : e.Legible)
    (h : ∀ (e' : Expr) (r s : List Char), e.kind = e'.kind → e'.Every Legible → EndsItem r →
      EndsItem s → e.text.toList ++ r = e'.text.toList ++ s →
        e.unnumbered = e'.unnumbered ∧ r = s) : e.Clear := by
  intro e' r s he' hr hs htext
  exact h e' r s (kind_eq_of_text he ((every_iff e').mp he').1 htext) he' hr hs htext

/-- A space ends an item. -/
theorem endsItem_space (r : List Char) : EndsItem (' ' :: r) := by simp [EndsItem]

/-- A closing parenthesis ends an item. -/
theorem endsItem_paren (r : List Char) : EndsItem (')' :: r) := by simp [EndsItem]

/-- Children are told one by one, up to the parenthesis that closes their parent. -/
theorem spaced_append_inj {es es' : List Expr} {r s : List Char} (hes : ∀ e ∈ es, e.Clear)
    (hes' : ∀ e ∈ es', e.Every Legible)
    (h : (spaced es).toList ++ ')' :: r = (spaced es').toList ++ ')' :: s) :
    es.map unnumbered = es'.map unnumbered ∧ r = s := by
  rw [toList_spaced, toList_spaced] at h
  obtain ⟨hmap, hrest⟩ := each_append_inj unnumbered endsItem_space
    (fun e he e' he' r s => hes e he e' r s (hes' e' he')) (endsItem_paren r) (endsItem_paren s)
    (by simp) (by simp) h
  exact ⟨hmap, List.tail_eq_of_cons_eq hrest⟩

/-- Two operands are read off one after the other. -/
theorem spaced_pair_append_inj {a b a' b' : Expr} {r s : List Char} (ha : a.Clear) (hb : b.Clear)
    (ha' : a'.Every Legible) (hb' : b'.Every Legible)
    (h : (spaced [a, b]).toList ++ ')' :: r = (spaced [a', b']).toList ++ ')' :: s) :
    a.unnumbered = a'.unnumbered ∧ b.unnumbered = b'.unnumbered ∧ r = s := by
  obtain ⟨hmap, hrest⟩ := spaced_append_inj (by simp [ha, hb]) (by simp [ha', hb']) h
  simp only [List.map_cons, List.map_nil, List.cons.injEq, and_true] at hmap
  exact ⟨hmap.1, hmap.2, hrest⟩

section Forms

variable {id : NodeId}

/-- A plain constant is clear. -/
theorem clear_constant {value : Literal} (h : value.Plain) : (constant id value).Clear := by
  refine clear_of_kind h fun e' r s hkind he' hr hs htext => ?_
  cases e' with
  | constant id' value' =>
    obtain ⟨rfl, hrest⟩ := Literal.text_append_inj h (every_constant.mp he') hr hs htext
    exact ⟨rfl, hrest⟩
  | _ => simp [kind] at hkind

/-- A clean variable is clear. -/
theorem clear_parameter {var : Variable} (h : var.Clean) : (parameter id var).Clear := by
  refine clear_of_kind h fun e' r s hkind he' hr hs htext => ?_
  cases e' with
  | parameter id' var' =>
    obtain ⟨rfl, hrest⟩ := Variable.text_append_inj h (every_parameter.mp he') hr hs htext
    exact ⟨rfl, hrest⟩
  | _ => simp [kind] at hkind

/-- An assignment is clear if its sides are. -/
theorem clear_assign {left right : Expr} (hleft : left.Clear) (hright : right.Clear) :
    (assign id left right).Clear := by
  refine clear_of_kind trivial fun e' r s hkind he' _ _ htext => ?_
  cases e' with
  | assign id' left' right' =>
    obtain ⟨-, hleft', hright'⟩ := every_assign.mp he'
    simp only [toList_assign, List.cons_append, List.append_assoc, List.nil_append, List.cons.injEq,
      true_and] at htext
    obtain ⟨hl, hr, hrest⟩ := spaced_pair_append_inj hleft hright hleft' hright' htext
    exact ⟨by rw [unnumbered, unnumbered, hl, hr], hrest⟩
  | _ => simp [kind] at hkind

/-- An element is clear if the array and the index are. -/
theorem clear_arrayIndex {array index : Expr} (harray : array.Clear) (hindex : index.Clear) :
    (arrayIndex id array index).Clear := by
  refine clear_of_kind trivial fun e' r s hkind he' _ _ htext => ?_
  cases e' with
  | arrayIndex id' array' index' =>
    obtain ⟨-, harray', hindex'⟩ := every_arrayIndex.mp he'
    simp only [toList_arrayIndex, List.cons_append, List.append_assoc, List.nil_append,
      List.cons.injEq, true_and] at htext
    obtain ⟨ha, hi, hrest⟩ := spaced_pair_append_inj harray hindex harray' hindex' htext
    exact ⟨by rw [unnumbered, unnumbered, ha, hi], hrest⟩
  | _ => simp [kind] at hkind

/-- An access to a clean field is clear if its target is. -/
theorem clear_member {target : Expr} {field : Field} (hfield : field.Clean)
    (htarget : target.Clear) : (member id target field).Clear := by
  refine clear_of_kind hfield fun e' r s hkind he' _ _ htext => ?_
  cases e' with
  | member id' target' field' =>
    obtain ⟨hfield', htarget'⟩ := every_member.mp he'
    simp only [toList_member, List.cons_append, List.append_assoc, List.nil_append, List.cons.injEq,
      true_and] at htext
    obtain ⟨heq, htail⟩ := htarget target' _ _ htarget' (endsItem_space _) (endsItem_space _) htext
    obtain ⟨rfl, hrest⟩ := Field.text_append_inj hfield hfield' (Ty.ends_cons rfl (by decide) _)
      (Ty.ends_cons rfl (by decide) _) (List.tail_eq_of_cons_eq htail)
    exact ⟨by rw [unnumbered, unnumbered, heq], List.tail_eq_of_cons_eq hrest⟩
  | _ => simp [kind] at hkind

/-- The number of elements is not taken for brackets of the type before it. -/
theorem ends_count (n : Nat) (r : List Char) : Ty.Ends ('[' :: ((toString n).toList ++ r)) := by
  obtain ⟨c, rest, hc, hdigit⟩ := exists_nat_eq_cons n
  refine ⟨endsName_cons rfl _, ?_⟩
  rw [hc]
  rintro ⟨t, ht⟩
  obtain ⟨rfl, -⟩ := List.cons.inj (List.cons.inj ht).2
  exact absurd hdigit (by decide)

/-- An array literal of a clean type is clear if its elements are. -/
theorem clear_newArray {element : Ty} {elements : List Expr} (helement : element.Clean)
    (helements : ∀ e ∈ elements, e.Clear) : (newArray id element elements).Clear := by
  refine clear_of_kind helement fun e' r s hkind he' _ _ htext => ?_
  cases e' with
  | newArray id' element' elements' =>
    obtain ⟨helement', helements'⟩ := every_newArray.mp he'
    simp only [toList_newArray, List.cons_append, List.append_assoc, List.nil_append,
      List.append_cancel_left_eq] at htext
    obtain ⟨rfl, hcount⟩ := Ty.text_append_inj helement helement' (ends_count _ _) (ends_count _ _)
      htext
    obtain ⟨-, htail⟩ := nat_append_inj (endsNumber_cons rfl _) (endsNumber_cons rfl _)
      (List.tail_eq_of_cons_eq hcount)
    obtain ⟨hmap, hrest⟩ :=
      spaced_append_inj helements helements' (List.tail_eq_of_cons_eq htail)
    exact ⟨by rw [unnumbered, unnumbered, unnumberedAll_eq, unnumberedAll_eq, hmap], hrest⟩
  | _ => simp [kind] at hkind

/-- What follows the signature of a call is no part of it. -/
theorem ends_spaced (es : List Expr) (r : List Char) :
    Ty.Ends ((spaced es).toList ++ ')' :: r) := by
  rw [toList_spaced]
  cases es with
  | nil => exact Ty.ends_cons rfl (by decide) _
  | cons e rest => exact Ty.ends_cons rfl (by decide) _

/-- Children are not taken for a receiver or for a list of variables. -/
theorem spaced_ne {es : List Expr} (hes : ∀ e ∈ es, e.Every Legible) {c : Char}
    (hc : c = '[' ∨ c = 'o') (r s : List Char) :
    (spaced es).toList ++ ')' :: r ≠ ' ' :: c :: s := by
  rw [toList_spaced]
  cases es with
  | nil => simp
  | cons e rest =>
    obtain ⟨d, first, hd, ⟨hbracket, ho⟩, -⟩ :=
      exists_text_eq_cons ((every_iff e).mp (hes e (by simp))).1
    rcases hc with rfl | rfl
    · simp [hd, hbracket]
    · simp [hd, ho]

/-- Whether there is a receiver is read off the mark, since no operand begins like it. -/
theorem receiverMark_append_inj {a b : Option Expr} {es es' : List Expr} {r s : List Char}
    (hes : ∀ e ∈ es, e.Every Legible) (hes' : ∀ e ∈ es', e.Every Legible)
    (h : receiverMark a ++ ((spaced es).toList ++ ')' :: r) =
      receiverMark b ++ ((spaced es').toList ++ ')' :: s)) :
    a.isSome = b.isSome ∧ (spaced es).toList ++ ')' :: r = (spaced es').toList ++ ')' :: s := by
  cases a with
  | none =>
    cases b with
    | none => exact ⟨rfl, h⟩
    | some receiver' => exact absurd h (spaced_ne hes (.inr rfl) _ _)
  | some receiver =>
    cases b with
    | none => exact absurd h.symm (spaced_ne hes' (.inr rfl) _ _)
    | some receiver' => exact ⟨rfl, List.append_cancel_left h⟩

/-- A call of a clean signature is clear if its operands are. -/
theorem clear_call {receiver : Option Expr} {sig : Signature} {args : List Expr} (hsig : sig.Clean)
    (hclean : ∀ e ∈ receiver.toList ++ args, e.Every Legible)
    (hparts : ∀ e ∈ receiver.toList ++ args, e.Clear) : (call id receiver sig args).Clear := by
  have hends (r : Option Expr) (es : List Expr) (t : List Char) :
      Ty.Ends (receiverMark r ++ ((spaced es).toList ++ ')' :: t)) := by
    cases r with
    | none => exact ends_spaced es t
    | some receiver => exact Ty.ends_cons rfl (by decide) _
  refine clear_of_kind hsig fun e' r s hkind he' _ _ htext => ?_
  cases e' with
  | call id' receiver' sig' args' =>
    obtain ⟨hsig', hclean'⟩ := (every_iff _).mp he'
    simp only [children] at hclean'
    simp only [toList_call, List.append_assoc, List.append_cancel_left_eq, List.cons_append,
      List.nil_append] at htext
    obtain ⟨rfl, hmark⟩ := Signature.text_append_inj hsig hsig' (hends _ _ _) (hends _ _ _) htext
    obtain ⟨hsome, hspaced⟩ := receiverMark_append_inj hclean hclean' hmark
    obtain ⟨hmap, hrest⟩ := spaced_append_inj hparts hclean' hspaced
    refine ⟨?_, hrest⟩
    rw [unnumbered_call, unnumbered_call, unnumberedAll_eq, unnumberedAll_eq]
    cases receiver with
    | none =>
      cases receiver' with
      | none => exact congrArg (call 0 none sig) hmap
      | some receiver' => simp at hsome
    | some receiver =>
      cases receiver' with
      | none => simp at hsome
      | some receiver' =>
        simp only [Option.toList_some, List.singleton_append, List.map_cons,
          List.cons.injEq] at hmap
        rw [Option.map_some, Option.map_some, hmap.1, hmap.2]
  | _ => simp [kind] at hkind

/-- The variables of a block and the statements after them. -/
theorem localsText_append_inj {as bs : List Variable} {es es' : List Expr} {r s : List Char}
    (has : ∀ a ∈ as, a.Clean) (hbs : ∀ b ∈ bs, b.Clean) (hes : ∀ e ∈ es, e.Every Legible)
    (hes' : ∀ e ∈ es', e.Every Legible)
    (h : (localsText as).toList ++ ((spaced es).toList ++ ')' :: r) =
      (localsText bs).toList ++ ((spaced es').toList ++ ')' :: s)) :
    as = bs ∧ (spaced es).toList ++ ')' :: r = (spaced es').toList ++ ')' :: s := by
  have hlocals (x : Variable) (xs : List Variable) : (localsText (x :: xs)).toList =
      ' ' :: '[' :: ((" ".intercalate ((x :: xs).map Variable.text)).toList ++ [']']) := by
    simp [localsText]
  cases as with
  | nil =>
    cases bs with
    | nil => exact ⟨rfl, h⟩
    | cons b bs =>
      rw [hlocals] at h
      exact absurd h (spaced_ne hes (.inl rfl) _ _)
  | cons a as =>
    cases bs with
    | nil =>
      rw [hlocals] at h
      exact absurd h.symm (spaced_ne hes' (.inl rfl) _ _)
    | cons b bs =>
      have hbracket (t : List Char) : EndsItem (']' :: t) := by simp [EndsItem]
      simp only [hlocals, List.cons_append, List.append_assoc, List.nil_append, List.cons.injEq,
        true_and] at h
      obtain ⟨hvars, hrest⟩ := intercalate_append_inj endsItem_space
        (fun a ha b hb _ _ => Variable.text_append_inj (has a ha) (hbs b hb)) (hbracket _)
        (hbracket _) (by simp) (by simp) h
      exact ⟨hvars, List.tail_eq_of_cons_eq hrest⟩

/-- A block with a clean type and clean variables is clear if its statements and its result are. -/
theorem clear_block {ty : Ty} {locals : List Variable} {statements : List Expr} {result : Expr}
    (hty : ty.Clean) (hlocals : ∀ var ∈ locals, var.Clean)
    (hclean : ∀ e ∈ statements ++ [result], e.Every Legible)
    (hparts : ∀ e ∈ statements ++ [result], e.Clear) :
    (block id ty locals statements result).Clear := by
  have hends (vars : List Variable) (es : List Expr) (t : List Char) :
      Ty.Ends ((localsText vars).toList ++ ((spaced es).toList ++ ')' :: t)) := by
    cases vars with
    | nil => exact ends_spaced es t
    | cons var vars =>
      simp only [localsText, List.isEmpty_cons, Bool.false_eq_true, if_false, String.toList_append]
      exact Ty.ends_cons rfl (by decide) _
  refine clear_of_kind ⟨hty, hlocals⟩ fun e' r s hkind he' _ _ htext => ?_
  cases e' with
  | block id' ty' locals' statements' result' =>
    obtain ⟨⟨hty', hlocals'⟩, hclean'⟩ := (every_iff _).mp he'
    simp only [children] at hclean'
    simp only [toList_block, List.append_assoc, List.append_cancel_left_eq, List.cons_append,
      List.nil_append] at htext
    obtain ⟨rfl, hrestty⟩ := Ty.text_append_inj hty hty' (hends _ _ _) (hends _ _ _) htext
    obtain ⟨rfl, hspaced⟩ := localsText_append_inj hlocals hlocals' hclean hclean' hrestty
    obtain ⟨hmap, hrest⟩ := spaced_append_inj hparts hclean' hspaced
    rw [List.map_append, List.map_append] at hmap
    obtain ⟨hstatements, hresult⟩ := List.append_inj' hmap rfl
    refine ⟨?_, hrest⟩
    rw [unnumbered, unnumbered, unnumberedAll_eq, unnumberedAll_eq, hstatements,
      List.singleton_inj.mp hresult]
  | _ => simp [kind] at hkind

end Forms

/-- Every expression with clean names is told by its text. -/
theorem clear_of_legible {e : Expr} (he : e.Every Legible) : e.Clear := by
  induction e using children_induction with
  | step e ih =>
    obtain ⟨hnode, hclean⟩ := (every_iff e).mp he
    have hparts : ∀ c ∈ e.children, c.Clear := fun c hc => ih c hc (hclean c hc)
    cases e with
    | constant id value => exact clear_constant hnode
    | parameter id var => exact clear_parameter hnode
    | member id target field => exact clear_member hnode (hparts target (by simp [children]))
    | assign id left right =>
      exact clear_assign (hparts left (by simp [children])) (hparts right (by simp [children]))
    | arrayIndex id array index =>
      exact clear_arrayIndex (hparts array (by simp [children])) (hparts index (by simp [children]))
    | newArray id element elements => exact clear_newArray hnode hparts
    | call id receiver sig args => exact clear_call hnode hclean hparts
    | block id ty locals statements result => exact clear_block hnode.1 hnode.2 hclean hparts

/-- Expressions with clean names and without floating-point literals have the same text exactly if
they are the same but for the identities of their nodes. -/
theorem text_eq_iff_unnumbered_eq {e e' : Expr} (he : e.Every Legible) (he' : e'.Every Legible) :
    e.text = e'.text ↔ e.unnumbered = e'.unnumbered := by
  constructor
  · intro htext
    have hnil : EndsItem [] := by simp [EndsItem]
    exact (clear_of_legible he e' [] [] he' hnil hnil (by rw [htext])).1
  · intro heq
    rw [← text_unnumbered e, heq, text_unnumbered e']

/-- With separators in names, different expressions can have one text. -/
example : (parameter 0 ⟨1, "x:int", none⟩).text = (parameter 0 ⟨1, "x", some .int⟩).text := by rfl

/-- A block whose text has brackets of every sort and a quote inside quotes. Its identities count up
from a given one. -/
def bracketed (id : NodeId) : Expr :=
  .block (id + 5) (.array .int) [⟨1, "x", some (.array (.reference "Box"))⟩]
    [.assign (id + 2) (.parameter id ⟨1, "x", some (.array (.reference "Box"))⟩)
      (.constant (id + 1) (.str "a\x22]"))]
    (.newArray (id + 4) .int [.constant (id + 3) (.int (-1))])

/-- All nodes of the sample are legible. -/
theorem every_legible_bracketed (id : NodeId) : (bracketed id).Every Legible := by
  have hx : Text.Clean "x" := by decide
  have hbox : Text.Clean "Box" := by decide
  simp [bracketed, Legible, Ty.Clean, Ty.keywords, Variable.Clean, Literal.Plain, hx, hbox]

/-- Two such blocks, made one after the other. -/
theorem text_eq_iff_unnumbered_eq_bracketed :
    (bracketed 0).Every Legible ∧ (bracketed 6).Every Legible ∧
      ((bracketed 0).text = (bracketed 6).text ↔
        (bracketed 0).unnumbered = (bracketed 6).unnumbered) :=
  ⟨every_legible_bracketed 0, every_legible_bracketed 6,
    text_eq_iff_unnumbered_eq (every_legible_bracketed 0) (every_legible_bracketed 6)⟩

end MethodBody.Expr
