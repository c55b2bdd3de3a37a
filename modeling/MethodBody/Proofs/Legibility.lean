import MethodBody.Literal
import MethodBody.Signature
import Mathlib.Data.List.Basic

/-!
# Legible texts

The text of a value stands among other texts, so it has to tell the value and where it ends. The
statements below are all of one form: if two texts read the same with whatever follows them, then
the values are the same and so is what follows. What may follow is restricted as far as needed: a
name ends at a separator, a type where no brackets follow, a number where no digit follows, and a
quoted string at its own quote.
-/

namespace MethodBody

namespace Text

/-- A run of characters of one sort is told from what follows, if that begins with a character of
another sort. -/
theorem run_append_inj {p : Char → Prop} {xs ys r s : List Char} (hxs : ∀ c ∈ xs, p c)
    (hys : ∀ c ∈ ys, p c) (hr : ∀ c ∈ r.head?, ¬ p c) (hs : ∀ c ∈ s.head?, ¬ p c)
    (h : xs ++ r = ys ++ s) : xs = ys ∧ r = s := by
  induction xs generalizing ys with
  | nil =>
    cases ys with
    | nil => exact ⟨rfl, h⟩
    | cons y ys =>
      rw [List.nil_append, List.cons_append] at h
      exact absurd (hys y (by simp)) (hr y (by simp [h]))
  | cons x xs ih =>
    cases ys with
    | nil =>
      rw [List.nil_append, List.cons_append] at h
      exact absurd (hxs x (by simp)) (hs x (by simp [← h]))
    | cons y ys =>
      rw [List.cons_append, List.cons_append, List.cons_eq_cons] at h
      obtain ⟨rfl, h⟩ := h
      obtain ⟨rfl, hrest⟩ :=
        ih (fun c hc => hxs c (by simp [hc])) (fun c hc => hys c (by simp [hc])) h
      exact ⟨rfl, hrest⟩

/-- Items that each stand after a mark are told one by one, and so is what follows the last of them,
if it does not begin with the mark itself. -/
theorem each_append_inj {α β : Type} (value : α → β) {mark : List Char} {text : α → List Char}
    {Ends : List Char → Prop} (hmark : ∀ r, Ends (mark ++ r)) {xs ys : List α} {r s : List Char}
    (hitem : ∀ x ∈ xs, ∀ y ∈ ys, ∀ r s, Ends r → Ends s → text x ++ r = text y ++ s →
      value x = value y ∧ r = s)
    (hr : Ends r) (hs : Ends s) (hmr : ¬ mark <+: r) (hms : ¬ mark <+: s)
    (h : (xs.flatMap fun x => mark ++ text x) ++ r = (ys.flatMap fun y => mark ++ text y) ++ s) :
    xs.map value = ys.map value ∧ r = s := by
  have hends (zs : List α) {t : List Char} (ht : Ends t) :
      Ends ((zs.flatMap fun z => mark ++ text z) ++ t) := by
    cases zs with
    | nil => exact ht
    | cons z zs =>
      rw [List.flatMap_cons, List.append_assoc, List.append_assoc]
      exact hmark _
  induction xs generalizing ys with
  | nil =>
    cases ys with
    | nil => exact ⟨rfl, h⟩
    | cons y ys =>
      rw [List.flatMap_nil, List.nil_append, List.flatMap_cons] at h
      exact absurd ⟨_, by rw [h, List.append_assoc, List.append_assoc]⟩ hmr
  | cons x xs ih =>
    cases ys with
    | nil =>
      rw [List.flatMap_nil, List.nil_append, List.flatMap_cons] at h
      exact absurd ⟨_, by rw [← h, List.append_assoc, List.append_assoc]⟩ hms
    | cons y ys =>
      simp only [List.flatMap_cons, List.append_assoc, List.append_cancel_left_eq] at h
      obtain ⟨hvalue, h⟩ := hitem x (by simp) y (by simp) _ _ (hends xs hr) (hends ys hs) h
      obtain ⟨hvalues, hrest⟩ :=
        ih (fun x hx y hy => hitem x (by simp [hx]) y (by simp [hy])) h
      exact ⟨by rw [List.map_cons, List.map_cons, hvalue, hvalues], hrest⟩

/-- With a separator before them as well, joined texts are texts that each stand after it. -/
theorem append_intercalate (sep text : String) (texts : List String) :
    sep.toList ++ (sep.intercalate (text :: texts)).toList =
      (text :: texts).flatMap fun t => sep.toList ++ t.toList := by
  induction texts generalizing text with
  | nil => simp
  | cons next rest ih =>
    have hnext := ih next
    rw [String.toList_intercalate] at hnext ⊢
    rw [List.map_cons, List.map_cons, List.intercalate_cons_cons, List.append_assoc,
      ← List.map_cons, hnext]
    simp

/-- Joined texts begin with the first of them. -/
theorem exists_intercalate_eq_append (sep text : String) (texts : List String) :
    ∃ rest, (sep.intercalate (text :: texts)).toList = text.toList ++ rest := by
  rw [String.toList_intercalate]
  cases texts with
  | nil => exact ⟨[], by simp⟩
  | cons next rest => exact ⟨_, by
      rw [List.map_cons, List.map_cons, List.intercalate_cons_cons, List.append_assoc]⟩

/-- Items joined by a separator, at least one, are told one by one. -/
theorem intercalate_append_inj {α : Type} {sep : String} {text : α → String}
    {Ends : List Char → Prop} (hsep : ∀ r, Ends (sep.toList ++ r)) {x y : α} {xs ys : List α}
    {r s : List Char}
    (hitem : ∀ a ∈ x :: xs, ∀ b ∈ y :: ys, ∀ r s, Ends r → Ends s →
      (text a).toList ++ r = (text b).toList ++ s → a = b ∧ r = s)
    (hr : Ends r) (hs : Ends s) (hmr : ¬ sep.toList <+: r) (hms : ¬ sep.toList <+: s)
    (h : (sep.intercalate ((x :: xs).map text)).toList ++ r =
      (sep.intercalate ((y :: ys).map text)).toList ++ s) : x :: xs = y :: ys ∧ r = s := by
  have hjoined (z : α) (zs : List α) (t : List Char) :
      sep.toList ++ ((sep.intercalate ((z :: zs).map text)).toList ++ t) =
        ((z :: zs).flatMap fun a => sep.toList ++ (text a).toList) ++ t := by
    rw [← List.append_assoc, List.map_cons, append_intercalate, ← List.map_cons, List.flatMap_map]
  have heach := congrArg (sep.toList ++ ·) h
  simp only [hjoined] at heach
  have htold := each_append_inj id hsep hitem hr hs hmr hms heach
  rwa [List.map_id, List.map_id] at htold

/-! ## Names -/

/-- The characters that names are separated by. -/
def isSeparator (c : Char) : Bool :=
  c.isWhitespace || ['.', ':', ',', '(', ')', '[', ']'].contains c

/-- The name holds no separator. -/
def Clean (name : String) : Prop := ∀ c ∈ name.toList, isSeparator c = false

instance (name : String) : Decidable (Clean name) :=
  List.decidableBAll (fun c => isSeparator c = false) name.toList

/-- What follows ends a name. -/
def EndsName (r : List Char) : Prop := ∀ c ∈ r.head?, isSeparator c = true

/-- A separator ends a name. -/
theorem endsName_cons {c : Char} (hc : isSeparator c = true) (r : List Char) :
    EndsName (c :: r) := by
  simpa [EndsName] using hc

/-- A clean name is read off where it ends. -/
theorem name_append_inj {a b : String} {r s : List Char} (ha : Clean a) (hb : Clean b)
    (hr : EndsName r) (hs : EndsName s) (h : a.toList ++ r = b.toList ++ s) : a = b ∧ r = s := by
  obtain ⟨hname, hrest⟩ := run_append_inj (p := fun c => isSeparator c = false) ha hb
    (fun c hc => by simp [hr c hc]) (fun c hc => by simp [hs c hc]) h
  exact ⟨String.toList_inj.mp hname, hrest⟩

/-- A name up to a separator. -/
theorem name_cons_inj {a b : String} {c : Char} {r s : List Char} (ha : Clean a) (hb : Clean b)
    (hc : isSeparator c = true) (h : a.toList ++ c :: r = b.toList ++ c :: s) : a = b ∧ r = s := by
  obtain ⟨hname, hrest⟩ := name_append_inj ha hb (endsName_cons hc r) (endsName_cons hc s) h
  exact ⟨hname, List.tail_eq_of_cons_eq hrest⟩

/-- What follows ends an item of a list, be it a variable, a literal or an expression. -/
def EndsItem (r : List Char) : Prop := ∀ c ∈ r.head?, c.isWhitespace = true ∨ c = ')' ∨ c = ']'

/-! ## Numbers -/

/-- Different digits have different characters. -/
theorem digitChar_inj {m n : Nat} (hm : m < 16) (hn : n < 16) (h : m.digitChar = n.digitChar) :
    m = n := by
  have hall : ∀ m < 16, ∀ n < 16, m.digitChar = n.digitChar → m = n := by decide
  exact hall m hm n hn h

/-- Digits tell the number. -/
theorem toDigits_inj {b m n : Nat} (hb : 1 < b) (hb' : b ≤ 16)
    (h : Nat.toDigits b m = Nat.toDigits b n) : m = n := by
  induction m using Nat.strongRecOn generalizing n with
  | ind m ih =>
    have hmod (k : Nat) : k % b < 16 := Nat.lt_of_lt_of_le (Nat.mod_lt k (by omega)) hb'
    rw [Nat.toDigits_eq_if (n := m) hb, Nat.toDigits_eq_if (n := n) hb] at h
    split at h <;> split at h
    · exact digitChar_inj (by omega) (by omega) (List.singleton_inj.mp h)
    · simp [List.singleton_eq_append_iff, Nat.toDigits_ne_nil] at h
    · simp [List.append_eq_singleton_iff, Nat.toDigits_ne_nil] at h
    · obtain ⟨hinit, hlast⟩ := List.append_inj' h rfl
      have hquot := ih (m / b) (Nat.div_lt_self (by omega) hb) hinit
      have hrem := digitChar_inj (hmod m) (hmod n) (List.singleton_inj.mp hlast)
      rw [← Nat.div_add_mod m b, hquot, hrem, Nat.div_add_mod]

/-- Every digit is the digit of some number. -/
theorem exists_digitChar_of_mem {b n : Nat} (hb : 1 < b) {c : Char} (hc : c ∈ Nat.toDigits b n) :
    ∃ d : Nat, c = d.digitChar := by
  induction n using Nat.strongRecOn with
  | ind n ih =>
    rw [Nat.toDigits_eq_if hb] at hc
    split at hc
    · exact ⟨n, List.mem_singleton.mp hc⟩
    · rcases List.mem_append.mp hc with hinit | hlast
      · exact ih (n / b) (Nat.div_lt_self (by omega) hb) hinit
      · exact ⟨n % b, List.mem_singleton.mp hlast⟩

/-- What follows ends a number. -/
def EndsNumber (r : List Char) : Prop := ∀ c ∈ r.head?, c.isDigit = false

/-- Anything but a digit ends a number. -/
theorem endsNumber_cons {c : Char} (hc : c.isDigit = false) (r : List Char) :
    EndsNumber (c :: r) := by
  simpa [EndsNumber] using hc

/-- A natural number is read off where its digits end. -/
theorem nat_append_inj {m n : Nat} {r s : List Char} (hr : EndsNumber r) (hs : EndsNumber s)
    (h : (toString m).toList ++ r = (toString n).toList ++ s) : m = n ∧ r = s := by
  rw [Nat.toString_eq_repr, Nat.toString_eq_repr, Nat.toList_repr, Nat.toList_repr] at h
  have hdigit (k : Nat) : ∀ c ∈ Nat.toDigits 10 k, c.isDigit = true :=
    fun c hc => Nat.isDigit_of_mem_toDigits (by decide) (by decide) hc
  obtain ⟨hdigits, hrest⟩ := run_append_inj (hdigit m) (hdigit n)
    (fun c hc => by simp [hr c hc]) (fun c hc => by simp [hs c hc]) h
  exact ⟨toDigits_inj (by decide) (by decide) hdigits, hrest⟩

/-- A number begins with a digit. -/
theorem exists_nat_eq_cons (n : Nat) :
    ∃ c rest, (toString n).toList = c :: rest ∧ c.isDigit = true := by
  rw [Nat.toString_eq_repr, Nat.toList_repr]
  obtain ⟨c, rest, h⟩ := List.exists_cons_of_ne_nil (Nat.toDigits_ne_nil (n := n) (b := 10))
  have hmem : c ∈ Nat.toDigits 10 n := by simp [h]
  exact ⟨c, rest, h, Nat.isDigit_of_mem_toDigits (by decide) (by decide) hmem⟩

/-- A negative number has a minus sign before its digits. -/
theorem toList_negSucc (n : Nat) :
    (toString (Int.negSucc n)).toList = '-' :: (toString (n + 1)).toList := by
  rw [show toString (Int.negSucc n) = "-" ++ toString (n + 1) from rfl]
  simp

/-- An integer begins with a digit or a minus sign. -/
theorem exists_int_eq_cons (n : Int) :
    ∃ c rest, (toString n).toList = c :: rest ∧ (c = '-' ∨ c.isDigit = true) := by
  cases n with
  | ofNat a =>
    obtain ⟨c, rest, heq, hdigit⟩ := exists_nat_eq_cons a
    exact ⟨c, rest, heq, .inr hdigit⟩
  | negSucc a => exact ⟨_, _, toList_negSucc a, .inl rfl⟩

/-- An integer is read off where its digits end. -/
theorem int_append_inj {m n : Int} {r s : List Char} (hr : EndsNumber r) (hs : EndsNumber s)
    (h : (toString m).toList ++ r = (toString n).toList ++ s) : m = n ∧ r = s := by
  have hmixed (a b : Nat) (r s : List Char) :
      (toString (Int.ofNat a)).toList ++ r ≠ (toString (Int.negSucc b)).toList ++ s := by
    obtain ⟨c, rest, heq, hdigit⟩ := exists_nat_eq_cons a
    rw [show toString (Int.ofNat a) = toString a from rfl, heq, toList_negSucc]
    intro h
    obtain ⟨rfl, -⟩ := List.cons.inj h
    exact absurd hdigit (by decide)
  cases m with
  | ofNat a =>
    cases n with
    | ofNat b =>
      obtain ⟨rfl, hrest⟩ := nat_append_inj (m := a) (n := b) hr hs h
      exact ⟨rfl, hrest⟩
    | negSucc b => exact absurd h (hmixed a b r s)
  | negSucc a =>
    cases n with
    | ofNat b => exact absurd h.symm (hmixed b a s r)
    | negSucc b =>
      rw [toList_negSucc, toList_negSucc, List.cons_append, List.cons_append,
        List.cons_eq_cons] at h
      obtain ⟨hsucc, hrest⟩ := nat_append_inj hr hs h.2
      obtain rfl : a = b := by omega
      exact ⟨rfl, hrest⟩

/-- What ends an item of a list ends a number. -/
theorem endsNumber_of_endsItem {r : List Char} (h : EndsItem r) : EndsNumber r := by
  intro c hc
  rcases h c hc with hspace | rfl | rfl
  · simp only [Char.isWhitespace, Bool.or_eq_true, decide_eq_true_eq] at hspace
    rcases hspace with ((rfl | rfl) | rfl) | rfl <;> decide
  · decide
  · decide

/-! ## Quoted strings -/

/-- The characters written by a backslash and one more character, with that character. -/
def shortEscapes : List (Char × Char) :=
  [('\x00', '0'), ('\t', 't'), ('\r', 'r'), ('\n', 'n'), ('\x22', '\x22'), ('\\', '\\')]

/-- A character inside quotes stands for itself, or it follows a backslash, shortly or by its code
point. -/
theorem escape_cases (c : Char) :
    c ≠ '\\' ∧ c ≠ '\x22' ∧ escape c = [c] ∨ escape c = codePoint c ∨
      ∃ x, (c, x) ∈ shortEscapes ∧ escape c = ['\\', x] := by
  unfold escape
  by_cases h₁ : c = '\x00'
  · exact .inr (.inr ⟨'0', by simp [h₁, shortEscapes], if_pos h₁⟩)
  rw [if_neg h₁]
  by_cases h₂ : c = '\t'
  · exact .inr (.inr ⟨'t', by simp [h₂, shortEscapes], if_pos h₂⟩)
  rw [if_neg h₂]
  by_cases h₃ : c = '\r'
  · exact .inr (.inr ⟨'r', by simp [h₃, shortEscapes], if_pos h₃⟩)
  rw [if_neg h₃]
  by_cases h₄ : c = '\n'
  · exact .inr (.inr ⟨'n', by simp [h₄, shortEscapes], if_pos h₄⟩)
  rw [if_neg h₄]
  by_cases h₅ : c = '\x22'
  · exact .inr (.inr ⟨'\x22', by simp [h₅, shortEscapes], if_pos h₅⟩)
  rw [if_neg h₅]
  by_cases h₆ : c = '\\'
  · exact .inr (.inr ⟨'\\', by simp [h₆, shortEscapes], if_pos h₆⟩)
  rw [if_neg h₆]
  by_cases h₇ : ' ' ≤ c ∧ c ≤ '~'
  · exact .inl ⟨h₆, h₅, if_pos h₇⟩
  rw [if_neg h₇]
  by_cases h₈ : isInvisible c = true
  · exact .inr (.inl (if_pos h₈))
  · exact .inl ⟨h₆, h₅, if_neg h₈⟩

/-- Different characters have different short escapes. -/
theorem shortEscapes_inj {c d x : Char} (hc : (c, x) ∈ shortEscapes) (hd : (d, x) ∈ shortEscapes) :
    c = d := by
  have hall : ∀ p ∈ shortEscapes, ∀ q ∈ shortEscapes, p.2 = q.2 → p.1 = q.1 := by decide
  exact hall _ hc _ hd rfl

/-- No short way of writing looks like the beginning of a code point. -/
theorem ne_u_of_mem_shortEscapes {c x : Char} (h : (c, x) ∈ shortEscapes) : x ≠ 'u' := by
  have hall : ∀ p ∈ shortEscapes, p.2 ≠ 'u' := by decide
  exact hall _ h

/-- A character is read off its code point. -/
theorem codePoint_append_inj {c d : Char} {r s : List Char}
    (h : codePoint c ++ r = codePoint d ++ s) : c = d ∧ r = s := by
  have hbrace (k : Char) : ∀ x ∈ Nat.toDigits 16 k.toNat, x ≠ '\x7d' := by
    rintro _ hx rfl
    obtain ⟨d, hd⟩ := exists_digitChar_of_mem (by decide) hx
    exact Nat.digitChar_ne '\x7d' (by decide) hd.symm
  simp only [codePoint, List.append_assoc, List.append_cancel_left_eq] at h
  obtain ⟨hdigits, hrest⟩ :=
    run_append_inj (hbrace c) (hbrace d) (by simp) (by simp) h
  exact ⟨Char.toNat_inj.mp (toDigits_inj (by decide) (by decide) hdigits), by simpa using hrest⟩

/-- The way a character is written tells the character and where it ends. -/
theorem escape_append_inj {c d : Char} {r s : List Char} (h : escape c ++ r = escape d ++ s) :
    c = d ∧ r = s := by
  rcases escape_cases c with ⟨hc, -, hcs⟩ | hcs | ⟨x, hx, hcs⟩ <;>
    rcases escape_cases d with ⟨hd, -, hds⟩ | hds | ⟨y, hy, hds⟩ <;> rw [hcs, hds] at h
  · simpa using h
  · simp [codePoint, hc] at h
  · simp [hc] at h
  · simp [codePoint, hd.symm] at h
  · exact codePoint_append_inj h
  · have hy' := ne_u_of_mem_shortEscapes hy
    simp [codePoint, hy'.symm] at h
  · simp [hd.symm] at h
  · have hx' := ne_u_of_mem_shortEscapes hx
    simp [codePoint, hx'] at h
  · simp only [List.cons_append, List.nil_append, List.cons.injEq, true_and] at h
    obtain ⟨rfl, hrest⟩ := h
    exact ⟨shortEscapes_inj hx hy, hrest⟩

/-- No way of writing a character begins with a quote, so the next quote ends the string. -/
theorem escape_eq_cons (c : Char) : ∃ x rest, escape c = x :: rest ∧ x ≠ '\x22' := by
  rcases escape_cases c with ⟨-, hquote, h⟩ | h | ⟨x, -, h⟩
  · exact ⟨c, [], h, hquote⟩
  · exact ⟨_, _, h, by decide⟩
  · exact ⟨_, _, h, by decide⟩

/-- Escaped text is read off up to the quote that closes it. -/
theorem escapes_append_inj {xs ys r s : List Char}
    (h : xs.flatMap escape ++ '\x22' :: r = ys.flatMap escape ++ '\x22' :: s) :
    xs = ys ∧ r = s := by
  induction xs generalizing ys with
  | nil =>
    cases ys with
    | nil => exact ⟨rfl, List.tail_eq_of_cons_eq h⟩
    | cons y ys =>
      obtain ⟨x, rest, hy, hx⟩ := escape_eq_cons y
      simp [List.flatMap_cons, hy, hx.symm] at h
  | cons x xs ih =>
    cases ys with
    | nil =>
      obtain ⟨y, rest, hx, hy⟩ := escape_eq_cons x
      simp [List.flatMap_cons, hx, hy] at h
    | cons y ys =>
      rw [List.flatMap_cons, List.flatMap_cons, List.append_assoc, List.append_assoc] at h
      obtain ⟨rfl, hchars⟩ := escape_append_inj h
      obtain ⟨rfl, hrest⟩ := ih hchars
      exact ⟨rfl, hrest⟩

/-- A quoted text is read off where it is closed. -/
theorem quoted_append_inj {a b : String} {r s : List Char}
    (h : (quoted a).toList ++ r = (quoted b).toList ++ s) : a = b ∧ r = s := by
  simp only [quoted, String.toList_ofList, List.cons_append, List.append_assoc, List.nil_append,
    List.cons.injEq, true_and] at h
  obtain ⟨hchars, hrest⟩ := escapes_append_inj h
  exact ⟨String.toList_inj.mp hchars, hrest⟩

end Text

/-! ## Types -/

namespace Ty

open Text

/-- The words for types that are no object types. -/
def keywords : List String := ["void", "boolean", "int", "long", "float", "double"]

/-- Object types in it have clean names, which are not empty and no keywords. -/
def Clean : Ty → Prop
  | reference name => Text.Clean name ∧ name ≠ "" ∧ name ∉ keywords
  | array element => element.Clean
  | _ => True

/-- The type that is left when all brackets are taken off. -/
def base : Ty → Ty
  | array element => element.base
  | ty => ty

/-- The number of pairs of brackets. -/
def rank : Ty → Nat
  | array element => element.rank + 1
  | _ => 0

/-- The brackets after the text of the base. -/
def brackets : Nat → List Char
  | 0 => []
  | n + 1 => '[' :: ']' :: brackets n

/-- A type is given by its base and its rank. -/
theorem eq_of_base_of_rank {a b : Ty} (hbase : a.base = b.base) (hrank : a.rank = b.rank) :
    a = b := by
  induction a generalizing b with
  | array element ih =>
    cases b with
    | array element' =>
      rw [rank, rank] at hrank
      rw [ih (b := element') hbase (Nat.add_right_cancel hrank)]
    | _ => simp [rank] at hrank
  | _ =>
    cases b with
    | array element' => simp [rank] at hrank
    | _ => exact hbase

/-- One more dimension is one more pair of brackets. -/
theorem brackets_append (n : Nat) : brackets n ++ ['[', ']'] = brackets (n + 1) := by
  induction n with
  | zero => rfl
  | succ n ih => exact congrArg (fun rest => '[' :: ']' :: rest) ih

/-- The text of a type is that of its base with the brackets. -/
theorem toList_text (ty : Ty) : ty.text.toList = ty.base.text.toList ++ brackets ty.rank := by
  induction ty with
  | array element ih =>
    rw [text, String.toList_append, ih, base, rank, ← brackets_append, List.append_assoc]
    rfl
  | _ => exact (List.append_nil _).symm

/-- The base of a clean type has a clean text. -/
theorem clean_base_text {ty : Ty} (h : ty.Clean) : Text.Clean ty.base.text ∧ ty.base.text ≠ "" := by
  induction ty with
  | array element ih => exact ih h
  | reference name => exact ⟨h.1, h.2.1⟩
  | _ => simp only [base, text]; decide

/-- Clean base types are told apart by their texts. -/
theorem base_eq_of_text {a b : Ty} (ha : a.Clean) (hb : b.Clean) (h : a.base.text = b.base.text) :
    a.base = b.base := by
  induction a with
  | array element ih => exact ih ha h
  | _ =>
    induction b with
    | array element ih => exact ih hb h
    | _ => simp_all [base, text, Clean, keywords]

/-- What follows ends a type. -/
def Ends (r : List Char) : Prop := EndsName r ∧ ¬ ['[', ']'] <+: r

/-- The rank is read off the brackets. -/
theorem brackets_append_inj {m n : Nat} {r s : List Char} (hr : ¬ ['[', ']'] <+: r)
    (hs : ¬ ['[', ']'] <+: s) (h : brackets m ++ r = brackets n ++ s) : m = n ∧ r = s := by
  induction m generalizing n with
  | zero =>
    cases n with
    | zero => exact ⟨rfl, h⟩
    | succ n => exact absurd ⟨_, h.symm⟩ hr
  | succ m ih =>
    cases n with
    | zero => exact absurd ⟨_, h⟩ hs
    | succ n =>
      simp only [brackets, List.cons_append, List.cons.injEq, true_and] at h
      obtain ⟨rfl, hrest⟩ := ih h
      exact ⟨rfl, hrest⟩

/-- A clean type is read off where it ends. -/
theorem text_append_inj {a b : Ty} {r s : List Char} (ha : a.Clean) (hb : b.Clean) (hr : Ends r)
    (hs : Ends s) (h : a.text.toList ++ r = b.text.toList ++ s) : a = b ∧ r = s := by
  have hends (n : Nat) {t : List Char} (ht : Ends t) : EndsName (brackets n ++ t) := by
    cases n with
    | zero => exact ht.1
    | succ n => exact endsName_cons rfl _
  rw [toList_text a, toList_text b, List.append_assoc, List.append_assoc] at h
  obtain ⟨hbase, hrest⟩ := name_append_inj (clean_base_text ha).1 (clean_base_text hb).1
    (hends a.rank hr) (hends b.rank hs) h
  obtain ⟨hrank, hrest⟩ := brackets_append_inj hr.2 hs.2 hrest
  exact ⟨eq_of_base_of_rank (base_eq_of_text ha hb hbase) hrank, hrest⟩

/-- A type does not begin with a separator. -/
theorem text_eq_cons {ty : Ty} (h : ty.Clean) :
    ∃ c rest, ty.text.toList = c :: rest ∧ isSeparator c = false := by
  obtain ⟨hclean, hne⟩ := clean_base_text h
  have hne' : ty.base.text.toList ≠ [] := by simpa using hne
  obtain ⟨c, rest, hname⟩ := List.exists_cons_of_ne_nil hne'
  refine ⟨c, rest ++ brackets ty.rank, ?_, hclean c (by simp [hname])⟩
  rw [toList_text, hname, List.cons_append]

/-- A separator other than a bracket ends a type. -/
theorem ends_cons {c : Char} (hc : isSeparator c = true) (hne : c ≠ '[') (r : List Char) :
    Ends (c :: r) :=
  ⟨endsName_cons hc r, by simp [hne.symm]⟩

/-- What ends an item of a list ends a type. -/
theorem ends_of_endsItem {r : List Char} (h : EndsItem r) : Ends r := by
  cases r with
  | nil => exact ⟨by simp [EndsName], by simp⟩
  | cons c r =>
    have hc := h c rfl
    refine ends_cons ?_ ?_ r
    · rcases hc with hc | rfl | rfl
      · simp [isSeparator, hc]
      · rfl
      · rfl
    · rintro rfl
      simp [Char.isWhitespace] at hc

/-- Types with commas between them, if there are any, do not begin with a parenthesis. -/
theorem paren_ne_params {ty : Ty} (h : ty.Clean) (tys : List Ty) (r s : List Char) :
    ')' :: r ≠ (", ".intercalate ((ty :: tys).map text)).toList ++ s := by
  obtain ⟨c, first, hfirst, hc⟩ := text_eq_cons h
  obtain ⟨rest, hrest⟩ := exists_intercalate_eq_append ", " ty.text (tys.map text)
  rw [List.map_cons, hrest, hfirst]
  intro hcons
  obtain ⟨rfl, -⟩ := List.cons.inj hcons
  exact absurd hc (by decide)

/-- Types with commas between them, up to a closing parenthesis. -/
theorem params_append_inj {as bs : List Ty} {r s : List Char} (has : ∀ a ∈ as, a.Clean)
    (hbs : ∀ b ∈ bs, b.Clean)
    (h : (", ".intercalate (as.map text)).toList ++ ')' :: r =
      (", ".intercalate (bs.map text)).toList ++ ')' :: s) : as = bs ∧ r = s := by
  cases as with
  | nil =>
    cases bs with
    | nil => exact ⟨rfl, List.tail_eq_of_cons_eq h⟩
    | cons b bs => exact absurd h (paren_ne_params (hbs b (by simp)) bs r _)
  | cons a as =>
    cases bs with
    | nil => exact absurd h.symm (paren_ne_params (has a (by simp)) as s _)
    | cons b bs =>
      have hparen (t : List Char) : Ends (')' :: t) := ends_cons rfl (by decide) t
      obtain ⟨htys, hrest⟩ := intercalate_append_inj (fun t => ends_cons rfl (by decide) _)
        (fun a ha b hb _ _ => text_append_inj (has a ha) (hbs b hb)) (hparen r) (hparen s)
        (by simp) (by simp) h
      exact ⟨htys, List.tail_eq_of_cons_eq hrest⟩

end Ty

/-! ## Fields, signatures and variables -/

namespace Field

/-- The names in it are clean. -/
def Clean (field : Field) : Prop :=
  Text.Clean field.owner ∧ Text.Clean field.member ∧ field.ty.Clean

/-- The text of a field is its owner, its name and its type. -/
theorem toList_text (field : Field) : field.text.toList =
    field.owner.toList ++ '.' :: (field.member.toList ++ ':' :: field.ty.text.toList) := by
  simp [text]

/-- A clean field is read off where its type ends. -/
theorem text_append_inj {a b : Field} {r s : List Char} (ha : a.Clean) (hb : b.Clean)
    (hr : Ty.Ends r) (hs : Ty.Ends s) (h : a.text.toList ++ r = b.text.toList ++ s) :
    a = b ∧ r = s := by
  obtain ⟨owner, member, ty⟩ := a
  obtain ⟨owner', member', ty'⟩ := b
  simp only [toList_text, List.append_assoc, List.cons_append] at h
  obtain ⟨rfl, hmember⟩ := Text.name_cons_inj ha.1 hb.1 rfl h
  obtain ⟨rfl, hty⟩ := Text.name_cons_inj ha.2.1 hb.2.1 rfl hmember
  obtain ⟨rfl, hrest⟩ := Ty.text_append_inj ha.2.2 hb.2.2 hr hs hty
  exact ⟨rfl, hrest⟩

end Field

namespace Signature

/-- The names in it are clean. -/
def Clean (sig : Signature) : Prop :=
  Text.Clean sig.owner ∧ Text.Clean sig.name ∧ sig.result.Clean ∧ ∀ ty ∈ sig.params, ty.Clean

/-- The text of a signature is its owner, its name, its parameters and its result. -/
theorem toList_text (sig : Signature) : sig.text.toList =
    sig.owner.toList ++ '.' :: (sig.name.toList ++ '(' ::
      ((", ".intercalate (sig.params.map Ty.text)).toList ++ ')' ::
        ([' ', '-', '>', ' '] ++ sig.result.text.toList))) := by
  simp [text]

/-- A clean signature is read off where its result ends. -/
theorem text_append_inj {a b : Signature} {r s : List Char} (ha : a.Clean) (hb : b.Clean)
    (hr : Ty.Ends r) (hs : Ty.Ends s) (h : a.text.toList ++ r = b.text.toList ++ s) :
    a = b ∧ r = s := by
  obtain ⟨owner, name, result, params⟩ := a
  obtain ⟨owner', name', result', params'⟩ := b
  obtain ⟨howner, hname, hresult, hparams⟩ := ha
  obtain ⟨howner', hname', hresult', hparams'⟩ := hb
  simp only [toList_text, List.append_assoc, List.cons_append] at h
  obtain ⟨rfl, h₁⟩ := Text.name_cons_inj howner howner' rfl h
  obtain ⟨rfl, h₂⟩ := Text.name_cons_inj hname hname' rfl h₁
  obtain ⟨rfl, h₃⟩ := Ty.params_append_inj hparams hparams' h₂
  have h₄ : [' ', '-', '>', ' '] ++ (result.text.toList ++ r) =
      [' ', '-', '>', ' '] ++ (result'.text.toList ++ s) := h₃
  obtain ⟨rfl, hrest⟩ := Ty.text_append_inj hresult hresult' hr hs (List.append_cancel_left h₄)
  exact ⟨rfl, hrest⟩

end Signature

namespace Variable

/-- The names in it are clean. -/
def Clean (var : Variable) : Prop := Text.Clean var.name ∧ ∀ ty ∈ var.ty, ty.Clean

/-- The type of a variable as it follows the name, if it has one. -/
def typeSuffix : Option Ty → List Char
  | some ty => ':' :: ty.text.toList
  | none => []

/-- The text of a variable is its slot, its name and its type. -/
theorem toList_text (var : Variable) : var.text.toList =
    '$' :: ((toString var.slot.toNat).toList ++ ':' ::
      (var.name.toList ++ typeSuffix var.ty)) := by
  cases hty : var.ty <;> simp [text, typeSuffix, hty]

/-- Whether there is a type, and which, is read off the suffix. -/
theorem typeSuffix_append_inj {a b : Option Ty} {r s : List Char} (ha : ∀ ty ∈ a, ty.Clean)
    (hb : ∀ ty ∈ b, ty.Clean) (hr : Text.EndsItem r) (hs : Text.EndsItem s)
    (h : typeSuffix a ++ r = typeSuffix b ++ s) : a = b ∧ r = s := by
  have hcolon {t t' : List Char} (ht : Text.EndsItem t) : t ≠ ':' :: t' := by
    rintro rfl
    have hhead := ht ':' rfl
    simp [Char.isWhitespace] at hhead
  cases a with
  | none =>
    cases b with
    | none => exact ⟨rfl, h⟩
    | some ty => exact absurd h (hcolon hr)
  | some ty =>
    cases b with
    | none => exact absurd h.symm (hcolon hs)
    | some ty' =>
      obtain ⟨rfl, hrest⟩ := Ty.text_append_inj (ha ty rfl) (hb ty' rfl) (Ty.ends_of_endsItem hr)
        (Ty.ends_of_endsItem hs) (List.tail_eq_of_cons_eq h)
      exact ⟨rfl, hrest⟩

/-- A clean variable is read off where an item ends. -/
theorem text_append_inj {a b : Variable} {r s : List Char} (ha : a.Clean) (hb : b.Clean)
    (hr : Text.EndsItem r) (hs : Text.EndsItem s) (h : a.text.toList ++ r = b.text.toList ++ s) :
    a = b ∧ r = s := by
  obtain ⟨slot, name, ty⟩ := a
  obtain ⟨slot', name', ty'⟩ := b
  have hname {ty? : Option Ty} {t : List Char} (ht : Text.EndsItem t) :
      Text.EndsName (typeSuffix ty? ++ t) := by
    cases ty? with
    | none => exact (Ty.ends_of_endsItem ht).1
    | some ty => exact Text.endsName_cons rfl _
  simp only [toList_text, List.append_assoc, List.cons_append, List.cons.injEq, true_and] at h
  obtain ⟨hslot, h₁⟩ :=
    Text.nat_append_inj (Text.endsNumber_cons rfl _) (Text.endsNumber_cons rfl _) h
  obtain ⟨rfl, h₂⟩ :=
    Text.name_append_inj ha.1 hb.1 (hname hr) (hname hs) (List.tail_eq_of_cons_eq h₁)
  obtain ⟨rfl, hrest⟩ := typeSuffix_append_inj ha.2 hb.2 hr hs h₂
  obtain rfl := UInt16.toNat_inj.mp hslot
  exact ⟨rfl, hrest⟩

end Variable

/-! ## Literals -/

namespace Literal

/-- The literal is not a floating-point number. -/
def Plain : Literal → Prop
  | float _ => False
  | double _ => False
  | _ => True

/-- The forms that the text of a literal can have. -/
inductive Form where
  | null
  | bool
  | number
  | string
deriving DecidableEq

/-- The form of the text that begins with a given character. -/
def Form.ofInitial? (c : Char) : Option Form :=
  if c = 'n' then some .null
  else if c = 't' ∨ c = 'f' then some .bool
  else if c = '\x22' then some .string
  else if c = '-' ∨ c.isDigit then some .number
  else none

/-- The form of the text of a literal, floating-point numbers apart. -/
def form? : Literal → Option Form
  | null => some .null
  | bool _ => some .bool
  | int _ | long _ => some .number
  | str _ => some .string
  | float _ | double _ => none

/-- Numbers begin with a sign or a digit, and nothing else does. -/
theorem ofInitial?_of_number {c : Char} (h : c = '-' ∨ c.isDigit = true) :
    Form.ofInitial? c = some .number := by
  have hne (d : Char) (hd : d ≠ '-' ∧ d.isDigit = false) : c ≠ d := by
    rintro rfl
    simp [hd] at h
  rw [Form.ofInitial?, if_neg (hne _ (by decide)), if_neg (not_or.mpr ⟨hne _ (by decide),
    hne _ (by decide)⟩), if_neg (hne _ (by decide)), if_pos h]

/-- A long integer is its digits with a mark. -/
theorem toList_long (value : Int64) :
    (long value).text.toList = (toString value.toInt).toList ++ ['L'] := by
  rw [text, String.toList_append]
  rfl

/-- The first character of a literal tells its form. -/
theorem text_eq_cons {value : Literal} (h : value.Plain) :
    ∃ c rest, value.text.toList = c :: rest ∧ Form.ofInitial? c = value.form? := by
  cases value with
  | null => exact ⟨'n', _, rfl, rfl⟩
  | bool value => cases value <;> exact ⟨_, _, rfl, rfl⟩
  | int value =>
    obtain ⟨c, rest, heq, hc⟩ := Text.exists_int_eq_cons value.toInt
    exact ⟨c, rest, heq, ofInitial?_of_number hc⟩
  | long value =>
    obtain ⟨c, rest, heq, hc⟩ := Text.exists_int_eq_cons value.toInt
    exact ⟨c, rest ++ ['L'], by rw [toList_long, heq]; rfl, ofInitial?_of_number hc⟩
  | str value => exact ⟨'\x22', _, String.toList_ofList, rfl⟩
  | float bits => exact h.elim
  | double bits => exact h.elim

/-- A literal does not begin with a character that begins no form. -/
theorem initial_ne {value : Literal} (h : value.Plain) {c d : Char}
    (hc : Form.ofInitial? c = value.form?) (hd : Form.ofInitial? d = none) : c ≠ d := by
  rintro rfl
  rw [hd] at hc
  cases value with
  | float | double => exact h.elim
  | _ => simp [form?] at hc

/-- A long is told from an int by what follows the digits. -/
theorem int_append_ne_long {m n : Int} {r s : List Char} (hr : Text.EndsItem r) :
    (toString m).toList ++ r ≠ (toString n).toList ++ ['L'] ++ s := by
  rw [List.append_assoc]
  intro h
  obtain ⟨-, rfl⟩ := Text.int_append_inj (Text.endsNumber_of_endsItem hr)
    (Text.endsNumber_cons rfl _) h
  have hhead := hr 'L' rfl
  simp [Char.isWhitespace] at hhead

/-- A plain literal is read off where an item ends. -/
theorem text_append_inj {a b : Literal} {r s : List Char} (ha : a.Plain) (hb : b.Plain)
    (hr : Text.EndsItem r) (hs : Text.EndsItem s) (h : a.text.toList ++ r = b.text.toList ++ s) :
    a = b ∧ r = s := by
  have hform : a.form? = b.form? := by
    obtain ⟨c, rest, hc, hform⟩ := text_eq_cons ha
    obtain ⟨c', rest', hc', hform'⟩ := text_eq_cons hb
    rw [hc, hc'] at h
    obtain ⟨rfl, -⟩ := List.cons.inj h
    rw [← hform, hform']
  have hr' := Text.endsNumber_of_endsItem hr
  have hs' := Text.endsNumber_of_endsItem hs
  cases a with
  | float | double => exact ha.elim
  | null =>
    cases b with
    | null => exact ⟨rfl, List.append_cancel_left h⟩
    | _ => simp [form?] at hform
  | bool value =>
    cases b with
    | bool value' =>
      have hinitial : (if value then 't' else 'f') = if value' then 't' else 'f' := by
        cases value <;> cases value' <;> exact (List.cons.inj h).1
      obtain rfl : value = value' := by
        cases value <;> cases value' <;> simp at hinitial ⊢
      exact ⟨rfl, List.append_cancel_left h⟩
    | _ => simp [form?] at hform
  | str value =>
    cases b with
    | str value' =>
      obtain ⟨rfl, hrest⟩ := Text.quoted_append_inj h
      exact ⟨rfl, hrest⟩
    | _ => simp [form?] at hform
  | int value =>
    cases b with
    | int value' =>
      obtain ⟨hvalue, hrest⟩ := Text.int_append_inj hr' hs' h
      exact ⟨by rw [Int32.toInt_inj.mp hvalue], hrest⟩
    | long value' =>
      rw [toList_long] at h
      exact absurd h (int_append_ne_long hr)
    | _ => simp [form?] at hform
  | long value =>
    cases b with
    | int value' =>
      rw [toList_long] at h
      exact absurd h.symm (int_append_ne_long hs)
    | long value' =>
      rw [toList_long, toList_long, List.append_assoc, List.append_assoc] at h
      obtain ⟨hvalue, hrest⟩ := Text.int_append_inj (Text.endsNumber_cons rfl _)
        (Text.endsNumber_cons rfl _) h
      exact ⟨by rw [Int64.toInt_inj.mp hvalue], List.tail_eq_of_cons_eq hrest⟩
    | _ => simp [form?] at hform

end Literal

end MethodBody
