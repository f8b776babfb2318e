import Mathlib.Data.List.Basic

/-!
# Splitting a text into words as a shell does

What a program uses of a shell-style splitter, and one.

The splitter is that of a library, so it is a structure with the laws a caller relies on: a text is
cut at white space, and only quotes, a backslash and a `#` at the start of a word mean anything
else. `Shlex.split_intercalate` is the consequence callers use: **words without such characters come
back from the text they are joined to**.

`shlex` is an instance, the tokenizer with seven states that the documentation describes.
-/

/-- The white space that separates words. -/
def IsShellSpace (c : Char) : Prop := c.toNat = 32 ∨ c.toNat = 9 ∨ c.toNat = 13 ∨ c.toNat = 10

instance (c : Char) : Decidable (IsShellSpace c) := inferInstanceAs (Decidable (_ ∨ _))

/-- A character that stands for itself: no white space, no quote and no backslash. -/
def IsShellPlain (c : Char) : Prop :=
  ¬ IsShellSpace c ∧ c.toNat ≠ 34 ∧ c.toNat ≠ 39 ∧ c.toNat ≠ 92

instance (c : Char) : Decidable (IsShellPlain c) := inferInstanceAs (Decidable (_ ∧ _))

/-- A word of such characters that does not start a comment. -/
structure IsShellWord (w : List Char) : Prop where
  ne_nil : w ≠ []
  head : w.head? ≠ some '#'
  plain : ∀ c ∈ w, IsShellPlain c

instance (w : List Char) : Decidable (IsShellWord w) :=
  letI : Decidable (∀ c ∈ w, IsShellPlain c) := List.decidableBAll IsShellPlain w
  decidable_of_iff (w ≠ [] ∧ w.head? ≠ some '#' ∧ ∀ c ∈ w, IsShellPlain c)
    ⟨fun ⟨hne, hhead, hplain⟩ ↦ ⟨hne, hhead, hplain⟩, fun h ↦ ⟨h.ne_nil, h.head, h.plain⟩⟩

/-- Plain characters behind a word make a word. -/
theorem IsShellWord.append {w v : List Char} (hw : IsShellWord w)
    (hv : ∀ c ∈ v, IsShellPlain c) : IsShellWord (w ++ v) := by
  refine ⟨List.append_ne_nil_of_left_ne_nil hw.ne_nil v, ?_, fun c hc ↦ ?_⟩
  · rw [List.head?_append_of_ne_nil w hw.ne_nil]
    exact hw.head
  · exact (List.mem_append.1 hc).elim (hw.plain c) (hv c)

/-- A splitter of texts into words. -/
structure Shlex where
  split : List Char → Option (List (List Char))
  split_nil : split [] = some []
  split_space : ∀ {c : Char} (cs : List Char), IsShellSpace c → split (c :: cs) = split cs
  split_word : ∀ {w : List Char} {c : Char} (cs : List Char), IsShellWord w → IsShellSpace c →
    split (w ++ c :: cs) = (split cs).map (w :: ·)

/-- **Joined words are split again.** -/
theorem Shlex.split_intercalate (S : Shlex) {ws : List (List Char)}
    (hws : ∀ w ∈ ws, IsShellWord w) : S.split ([' '].intercalate ws ++ ['\n']) = some ws := by
  have hspace : IsShellSpace ' ' := by decide
  have hnewline : IsShellSpace '\n' := by decide
  induction ws with
  | nil => exact (S.split_space [] hnewline).trans S.split_nil
  | cons w ws ih =>
    have hw := hws w List.mem_cons_self
    have hrest := ih fun v hv ↦ hws v (List.mem_cons_of_mem w hv)
    cases ws with
    | nil =>
      rw [List.intercalate_singleton, S.split_word [] hw hnewline, S.split_nil, Option.map_some]
    | cons v ws =>
      rw [List.intercalate_cons_cons, List.append_assoc, List.append_assoc, List.singleton_append,
        S.split_word _ hw hspace, hrest, Option.map_some]

/-! ### The tokenizer -/

namespace Shlex

/-- Where the tokenizer is. -/
inductive State
  | start
  | inWord
  | escaping
  | escapingQuoted
  | quotingEscaping
  | quoting
  | comment
  deriving DecidableEq, Repr

/-- What a character means to it. -/
inductive Class
  | space
  | escapingQuote
  | nonEscapingQuote
  | escape
  | comment
  | other
  deriving DecidableEq, Repr

/-- The class of a character, which decides what the splitter does with it. -/
def classify (c : Char) : Class :=
  if IsShellSpace c then .space
  else if c.toNat = 34 then .escapingQuote
  else if c.toNat = 39 then .nonEscapingQuote
  else if c.toNat = 92 then .escape
  else if c = '#' then .comment
  else .other

/-- The words of a text, from a state and the part of a word read so far. A text that ends in quotes
or behind a backslash is an error. -/
def scan : State → List Char → List Char → Option (List (List Char))
  | .start, _, [] => some []
  | .inWord, v, [] => some [v]
  | .comment, _, [] => some []
  | .escaping, _, [] | .escapingQuoted, _, [] | .quotingEscaping, _, [] | .quoting, _, [] => none
  | .start, v, c :: cs =>
    match classify c with
    | .space => scan .start v cs
    | .escapingQuote => scan .quotingEscaping v cs
    | .nonEscapingQuote => scan .quoting v cs
    | .escape => scan .escaping v cs
    | .comment => scan .comment v cs
    | .other => scan .inWord (v ++ [c]) cs
  | .inWord, v, c :: cs =>
    match classify c with
    | .space => (scan .start [] cs).map (v :: ·)
    | .escapingQuote => scan .quotingEscaping v cs
    | .nonEscapingQuote => scan .quoting v cs
    | .escape => scan .escaping v cs
    | .comment | .other => scan .inWord (v ++ [c]) cs
  | .escaping, v, c :: cs => scan .inWord (v ++ [c]) cs
  | .escapingQuoted, v, c :: cs => scan .quotingEscaping (v ++ [c]) cs
  | .quotingEscaping, v, c :: cs =>
    match classify c with
    | .escapingQuote => scan .inWord v cs
    | .escape => scan .escapingQuoted v cs
    | .space | .nonEscapingQuote | .comment | .other => scan .quotingEscaping (v ++ [c]) cs
  | .quoting, v, c :: cs =>
    match classify c with
    | .nonEscapingQuote => scan .inWord v cs
    | .space | .escapingQuote | .escape | .comment | .other => scan .quoting (v ++ [c]) cs
  | .comment, v, c :: cs => if c = '\n' then scan .start v cs else scan .comment v cs

theorem classify_of_space {c : Char} (h : IsShellSpace c) : classify c = .space := if_pos h

theorem classify_of_plain {c : Char} (h : IsShellPlain c) :
    classify c = if c = '#' then .comment else .other := by
  obtain ⟨hspace, hdouble, hsingle, hback⟩ := h
  rw [classify, if_neg hspace, if_neg hdouble, if_neg hsingle, if_neg hback]

/-- Inside a word, plain characters belong to it. -/
theorem scan_inWord {w : List Char} (hw : ∀ c ∈ w, IsShellPlain c) (v cs : List Char) :
    scan .inWord v (w ++ cs) = scan .inWord (v ++ w) cs := by
  induction w generalizing v with
  | nil => rw [List.append_nil, List.nil_append]
  | cons c w ih =>
    have hplain := classify_of_plain (hw c List.mem_cons_self)
    have hstep : scan .inWord v (c :: (w ++ cs)) = scan .inWord (v ++ [c]) (w ++ cs) := by
      rw [scan, hplain]
      by_cases hc : c = '#'
      · rw [if_pos hc]
      · rw [if_neg hc]
    rw [List.cons_append, hstep, ih (fun d hd ↦ hw d (List.mem_cons_of_mem c hd)),
      List.append_assoc, List.singleton_append]

/-- A word and the white space behind it. -/
theorem scan_word {w : List Char} {c : Char} (cs : List Char) (hw : IsShellWord w)
    (hc : IsShellSpace c) : scan .start [] (w ++ c :: cs) = (scan .start [] cs).map (w :: ·) := by
  rcases w with - | ⟨d, w⟩
  · exact absurd rfl hw.ne_nil
  have hd : classify d = .other := by
    rw [classify_of_plain (hw.plain d List.mem_cons_self), if_neg fun h ↦ hw.head (by rw [h]; rfl)]
  have hrest := scan_inWord (fun e he ↦ hw.plain e (List.mem_cons_of_mem d he)) [d] (c :: cs)
  rw [List.cons_append, scan, hd]
  show scan .inWord [d] (w ++ c :: cs) = _
  rw [hrest, scan, classify_of_space hc]
  rfl

end Shlex

/-- The tokenizer, from its first state. -/
def shlex : Shlex where
  split := Shlex.scan .start []
  split_nil := rfl
  split_space cs h := by rw [Shlex.scan, Shlex.classify_of_space h]
  split_word cs hw hc := Shlex.scan_word cs hw hc

example : shlex.split "a 'b c'\\ d #e".toList = some ["a".toList, "b c d".toList] := by decide
