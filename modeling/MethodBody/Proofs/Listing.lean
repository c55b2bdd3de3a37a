import MethodBody.Proofs.Legibility
import MethodBody.Proofs.Recorder

/-!
# The listing of a method tells the method

A listing has one line for each instruction. The line begins with the address, which counts the
lines and need not be read, and then tells the instruction: the first word is the operation, and
what follows is an operand of the sort that the operation takes, up to the end of the line. No
operand with clean names holds a line break, and those in strings are escaped. The instructions
determine the counters of a recorder, so the listing also tells the height of the stack, which it
does not show.
-/

namespace MethodBody

/-- The sorts of operands. -/
inductive OperandSort where
  | none
  | literal
  | slot
  | number
  | field
  | type
  | method

namespace OperandSort

open Text

/-- The operands of a sort. -/
def Value : OperandSort → Type
  | none => Unit
  | literal => Literal
  | slot => UInt16
  | number => Int32
  | field => Field
  | type => Ty
  | method => Signature

/-- The text of an operand as it follows the operation, after a space. -/
def text : (sort : OperandSort) → sort.Value → List Char
  | none, _ => []
  | literal, value => ' ' :: (Literal.text value).toList
  | slot, value => ' ' :: (toString (UInt16.toNat value)).toList
  | number, value => ' ' :: (toString (Int32.toInt value)).toList
  | field, value => ' ' :: (Field.text value).toList
  | type, value => ' ' :: (Ty.text value).toList
  | method, value => ' ' :: (Signature.text value).toList

/-- The names in an operand are clean, and a literal is plain. -/
def Legible : (sort : OperandSort) → sort.Value → Prop
  | literal, value => Literal.Plain value
  | field, value => Field.Clean value
  | type, value => Ty.Clean value
  | method, value => Signature.Clean value
  | none, _ => True
  | slot, _ => True
  | number, _ => True

/-- An operand ends the word before it. -/
theorem endsName_text (sort : OperandSort) (value : sort.Value) {r : List Char} (hr : EndsName r) :
    EndsName (sort.text value ++ r) := by
  cases sort with
  | none => exact hr
  | literal | slot | number | field | type | method => exact endsName_cons rfl _

/-- An operand is told by its text, if its sort is known. -/
theorem text_append_inj (sort : OperandSort) {a b : sort.Value} {r s : List Char}
    (ha : sort.Legible a) (hb : sort.Legible b) (hr : EndsItem r) (hs : EndsItem s)
    (h : sort.text a ++ r = sort.text b ++ s) : a = b ∧ r = s := by
  cases sort with
  | none => exact ⟨rfl, h⟩
  | literal => exact Literal.text_append_inj ha hb hr hs (List.tail_eq_of_cons_eq h)
  | slot =>
    obtain ⟨hslot, hrest⟩ := nat_append_inj (endsNumber_of_endsItem hr)
      (endsNumber_of_endsItem hs) (List.tail_eq_of_cons_eq h)
    exact ⟨UInt16.toNat_inj.mp hslot, hrest⟩
  | number =>
    obtain ⟨hn, hrest⟩ := int_append_inj (endsNumber_of_endsItem hr)
      (endsNumber_of_endsItem hs) (List.tail_eq_of_cons_eq h)
    exact ⟨Int32.toInt_inj.mp hn, hrest⟩
  | field =>
    exact Field.text_append_inj ha hb (Ty.ends_of_endsItem hr) (Ty.ends_of_endsItem hs)
      (List.tail_eq_of_cons_eq h)
  | type =>
    exact Ty.text_append_inj ha hb (Ty.ends_of_endsItem hr) (Ty.ends_of_endsItem hs)
      (List.tail_eq_of_cons_eq h)
  | method =>
    exact Signature.text_append_inj ha hb (Ty.ends_of_endsItem hr) (Ty.ends_of_endsItem hs)
      (List.tail_eq_of_cons_eq h)

end OperandSort

/-- The operations of the stack machine. -/
inductive Operation where
  | pushLiteral
  | loadLocal
  | storeLocal
  | getField
  | putField
  | newArray
  | storeArrayElement
  | dupArrayRef
  | pushInt
  | invokeVirtual
  | invokeStatic
  | returnValue
  | returnVoid
deriving DecidableEq

namespace Operation

/-- All operations. -/
def all : List Operation :=
  [pushLiteral, loadLocal, storeLocal, getField, putField, newArray, storeArrayElement, dupArrayRef,
    pushInt, invokeVirtual, invokeStatic, returnValue, returnVoid]

/-- The word for an operation in a listing. -/
def word : Operation → String
  | pushLiteral => "push-literal"
  | loadLocal => "load-local"
  | storeLocal => "store-local"
  | getField => "get-field"
  | putField => "put-field"
  | newArray => "new-array"
  | storeArrayElement => "store-array-element"
  | dupArrayRef => "dup-array-ref"
  | pushInt => "push-int"
  | invokeVirtual => "invoke-virtual"
  | invokeStatic => "invoke-static"
  | returnValue => "return-value"
  | returnVoid => "return-void"

/-- The operation with a given word. -/
def ofWord? (name : String) : Option Operation := all.find? (·.word == name)

/-- Different operations have different words. -/
theorem ofWord?_word (op : Operation) : ofWord? op.word = some op := by
  cases op <;> decide

/-- The words of operations are clean names. -/
theorem clean_word (op : Operation) : Text.Clean op.word := by
  cases op <;> decide

/-- The sort of operand that an operation takes. -/
def operand : Operation → OperandSort
  | pushLiteral => .literal
  | loadLocal | storeLocal => .slot
  | getField | putField => .field
  | newArray => .type
  | pushInt => .number
  | invokeVirtual | invokeStatic => .method
  | storeArrayElement | dupArrayRef | returnValue | returnVoid => .none

/-- The instruction that applies an operation to an operand. -/
def on : (op : Operation) → op.operand.Value → Instruction
  | pushLiteral, value => .pushLiteral value
  | loadLocal, slot => .loadLocal slot
  | storeLocal, slot => .storeLocal slot
  | getField, field => .getField field
  | putField, field => .putField field
  | newArray, ty => .newArray ty
  | storeArrayElement, _ => .storeArrayElement
  | dupArrayRef, _ => .dupArrayRef
  | pushInt, n => .pushInt n
  | invokeVirtual, sig => .invokeVirtual sig
  | invokeStatic, sig => .invokeStatic sig
  | returnValue, _ => .returnValue
  | returnVoid, _ => .returnVoid

end Operation

namespace Instruction

open Text

/-- The names in an instruction are clean, and a literal is plain. -/
def Legible : Instruction → Prop
  | pushLiteral value => value.Plain
  | getField field => field.Clean
  | putField field => field.Clean
  | newArray element => element.Clean
  | invokeVirtual sig => sig.Clean
  | invokeStatic sig => sig.Clean
  | _ => True

variable {op : Operation}

/-- Every instruction is an operation on an operand. -/
theorem exists_eq_on (i : Instruction) : ∃ (op : Operation) (value : op.operand.Value),
    i = op.on value := by
  cases i with
  | pushLiteral value => exact ⟨.pushLiteral, value, rfl⟩
  | loadLocal slot => exact ⟨.loadLocal, slot, rfl⟩
  | storeLocal slot => exact ⟨.storeLocal, slot, rfl⟩
  | getField field => exact ⟨.getField, field, rfl⟩
  | putField field => exact ⟨.putField, field, rfl⟩
  | newArray element => exact ⟨.newArray, element, rfl⟩
  | storeArrayElement => exact ⟨.storeArrayElement, (), rfl⟩
  | dupArrayRef => exact ⟨.dupArrayRef, (), rfl⟩
  | pushInt n => exact ⟨.pushInt, n, rfl⟩
  | invokeVirtual sig => exact ⟨.invokeVirtual, sig, rfl⟩
  | invokeStatic sig => exact ⟨.invokeStatic, sig, rfl⟩
  | returnValue => exact ⟨.returnValue, (), rfl⟩
  | returnVoid => exact ⟨.returnVoid, (), rfl⟩

/-- The operand of a legible instruction is legible. -/
theorem legible_operand {value : op.operand.Value} (h : (op.on value).Legible) :
    op.operand.Legible value := by
  cases op with
  | pushLiteral | getField | putField | newArray | invokeVirtual | invokeStatic => exact h
  | loadLocal | storeLocal | storeArrayElement | dupArrayRef | pushInt | returnValue
  | returnVoid => trivial

/-- An operation and its operand with a space between them. -/
theorem toList_operated {word spaced operand : String} (h : spaced = word ++ " ") :
    (spaced ++ operand).toList = word.toList ++ ' ' :: operand.toList := by
  simp [h]

/-- The text of an instruction is the word of its operation and the text of its operand. -/
theorem toList_text_on (op : Operation) (value : op.operand.Value) :
    (op.on value).text.toList = op.word.toList ++ op.operand.text value := by
  cases op with
  | pushLiteral | loadLocal | storeLocal | getField | putField | newArray | pushInt | invokeVirtual
  | invokeStatic => exact toList_operated (by decide)
  | storeArrayElement | dupArrayRef | returnValue | returnVoid => exact (List.append_nil _).symm

/-- The text of an instruction tells the instruction and where its line ends. -/
theorem text_append_inj {i j : Instruction} {r s : List Char} (hi : i.Legible) (hj : j.Legible)
    (h : i.text.toList ++ '\n' :: r = j.text.toList ++ '\n' :: s) : i = j ∧ r = s := by
  have hbreak (t : List Char) : EndsItem ('\n' :: t) := by simp [EndsItem]
  have hword (sort : OperandSort) (value : sort.Value) (t : List Char) :
      EndsName (sort.text value ++ '\n' :: t) := sort.endsName_text value (endsName_cons rfl t)
  obtain ⟨op, a, rfl⟩ := i.exists_eq_on
  obtain ⟨op', b, rfl⟩ := j.exists_eq_on
  rw [toList_text_on, toList_text_on, List.append_assoc, List.append_assoc] at h
  obtain ⟨hop, hoperand⟩ :=
    name_append_inj op.clean_word op'.clean_word (hword _ a r) (hword _ b s) h
  obtain rfl : op = op' := by
    rw [← Option.some_inj, ← op.ofWord?_word, hop, op'.ofWord?_word]
  obtain ⟨rfl, hrest⟩ := op.operand.text_append_inj (legible_operand hi) (legible_operand hj)
    (hbreak r) (hbreak s) hoperand
  exact ⟨rfl, List.tail_eq_of_cons_eq hrest⟩

end Instruction

namespace Code

/-- The first line has the address and the instruction, and the other lines follow. -/
theorem toList_lines_cons (start : Nat) (i : Instruction) (rest : List Instruction) :
    (lines start (i :: rest)).toList = "    ".toList ++ ((address start ++ "  ").toList ++
      (i.text.toList ++ '\n' :: (lines (start + 1) rest).toList)) := by
  simp [lines]

/-- The lines of a listing tell the instructions one by one, up to what does not begin as a line
does. -/
theorem lines_append_inj {start : Nat} {is js : List Instruction} {r s : List Char}
    (his : ∀ i ∈ is, i.Legible) (hjs : ∀ j ∈ js, j.Legible) (hr : ¬ "    ".toList <+: r)
    (hs : ¬ "    ".toList <+: s)
    (h : (lines start is).toList ++ r = (lines start js).toList ++ s) : is = js ∧ r = s := by
  induction is generalizing start js with
  | nil =>
    cases js with
    | nil => exact ⟨rfl, h⟩
    | cons j js =>
      rw [toList_lines_cons, List.append_assoc] at h
      exact absurd ⟨_, h.symm⟩ hr
  | cons i is ih =>
    cases js with
    | nil =>
      rw [toList_lines_cons, List.append_assoc] at h
      exact absurd ⟨_, h⟩ hs
    | cons j js =>
      -- The addresses of the two lines are the same, since both are counted from `start`.
      simp only [toList_lines_cons, List.append_assoc, List.append_cancel_left_eq,
        List.cons_append] at h
      obtain ⟨rfl, hlines⟩ := Instruction.text_append_inj (his i (by simp)) (hjs j (by simp)) h
      obtain ⟨rfl, hrest⟩ :=
        ih (fun x hx => his x (by simp [hx])) (fun x hx => hjs x (by simp [hx])) hlines
      exact ⟨rfl, hrest⟩

/-- The characters of seven texts in turn. -/
theorem toList_sections (a b c d e f g : String) : (a ++ b ++ c ++ d ++ e ++ f ++ g).toList =
    a.toList ++ (b.toList ++ (c.toList ++ (d.toList ++ (e.toList ++ (f.toList ++ g.toList))))) := by
  simp only [String.toList_append, List.append_assoc]

/-- A listing is its two numbers and its lines, framed by fixed texts. -/
theorem toList_listing (code : Code) : code.listing.toList =
    "Code \x7b\n  max_locals: ".toList ++ ((toString code.maxLocals).toList ++
      ("\n  max_stack_size: ".toList ++ ((toString code.maxStack).toList ++
        ("\n  instructions: [\n".toList ++
          ((lines 0 code.instructions.toList).toList ++ "  ]\n\x7d".toList))))) :=
  toList_sections _ _ _ _ _ _ _

/-- Legible recorders with one listing hold the same instructions. -/
theorem instructions_eq_of_listing_eq {a b : Code}
    (ha : ∀ i ∈ a.instructions.toList, i.Legible) (hb : ∀ i ∈ b.instructions.toList, i.Legible)
    (h : a.listing = b.listing) : a.instructions.toList = b.instructions.toList := by
  have hends (text : String) (htext : text.toList.head? = some '\n') (r : List Char) :
      Text.EndsNumber (text.toList ++ r) := by
    apply Text.endsNumber_of_endsItem
    simp [Text.EndsItem, List.head?_append, htext]
  have hlocals := congrArg String.toList h
  rw [toList_listing, toList_listing] at hlocals
  obtain ⟨-, hstack⟩ :=
    Text.nat_append_inj (hends _ rfl _) (hends _ rfl _) (List.append_cancel_left hlocals)
  obtain ⟨-, hlines⟩ :=
    Text.nat_append_inj (hends _ rfl _) (hends _ rfl _) (List.append_cancel_left hstack)
  obtain ⟨hsame, -⟩ :=
    lines_append_inj ha hb (by decide) (by decide) (List.append_cancel_left hlines)
  exact hsame

-- A listing alone does not tell the height of the stack: these two differ in it.
example : (⟨#[], 0, 0, 1⟩ : Code).listing = Code.empty.listing := rfl

/-- For recorders that were fed legible instructions, the listing tells everything: those with one
listing are equal in every field, also in the height of the stack, which the listing does not
show. -/
theorem listing_recorded_inj {is js : List Instruction} (his : ∀ i ∈ is, i.Legible)
    (hjs : ∀ j ∈ js, j.Legible) :
    (recorded is).listing = (recorded js).listing ↔ recorded is = recorded js := by
  constructor
  · intro h
    have hsame := instructions_eq_of_listing_eq (by rwa [instructions_recorded])
      (by rwa [instructions_recorded]) h
    rw [instructions_recorded, instructions_recorded] at hsame
    rw [hsame]
  · intro h
    rw [h]

/-- Without its escapes the one literal of the first recorder would print as the three lines of the
second. -/
theorem listing_recorded_inj_quoted :
    let forged : List Instruction :=
      [.pushLiteral (.str "a\"\n       1  return-value\n       2  push-literal \"b")]
    let real : List Instruction :=
      [.pushLiteral (.str "a"), .returnValue, .pushLiteral (.str "b")]
    (∀ i ∈ forged, i.Legible) ∧ (∀ i ∈ real, i.Legible) ∧
      (recorded forged).listing ≠ (recorded real).listing := by
  intro forged real
  have hforged : ∀ i ∈ forged, i.Legible := by
    simp [forged, Instruction.Legible, Literal.Plain]
  have hreal : ∀ i ∈ real, i.Legible := by
    simp [real, Instruction.Legible, Literal.Plain]
  refine ⟨hforged, hreal, fun h => ?_⟩
  have hequal := congrArg (·.instructions.toList) ((listing_recorded_inj hforged hreal).mp h)
  simp [instructions_recorded, forged, real] at hequal

end Code

end MethodBody
