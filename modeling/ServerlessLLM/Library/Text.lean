import Mathlib.Data.List.Infix
import Mathlib.Data.List.TakeWhile

/-!
# Formatted input from text

What the input operators of C++ streams do, on lists of characters: `getline` cuts a text into lines, `word` and `number` are
the operator `>>` for strings and for unsigned integers, and `find` is a search for a marker. The lemmas say what they do on
text that was printed: words between blanks, decimal numbers, lines that end with a line feed.
-/

namespace Text

open List

def isSpace (c : Char) : Bool :=
  c = ' ' || c = '\t' || c = '\n' || c = '\x0b' || c = '\x0c' || c = '\r'

/-- The digits of hexadecimal numbers. -/
def isHexDigit (c : Char) : Bool := c.isDigit || ('a' ≤ c && c ≤ 'f') || ('A' ≤ c && c ≤ 'F')

/-- Their values. -/
def hexValue (c : Char) : Nat :=
  if c.isDigit then c.toNat - '0'.toNat
  else if 'a' ≤ c then c.toNat - 'a'.toNat + 10
  else c.toNat - 'A'.toNat + 10

/-! ## Lines -/

/-- The lines of a text. A line feed at the end does not start another line. -/
def lines : List Char → List (List Char)
  | [] => []
  | c :: text =>
    if c = '\n' then [] :: lines text
    else
      match lines text with
      | [] => [[c]]
      | line :: rest => (c :: line) :: rest

/-- Lines, each with its line feed. -/
def unlines (ls : List (List Char)) : List Char := ls.flatMap fun line => line ++ ['\n']

theorem lines_append_feed {line : List Char} (h : '\n' ∉ line) (text : List Char) :
    lines (line ++ '\n' :: text) = line :: lines text := by
  induction line with
  | nil => simp [lines]
  | cons c line ih =>
    rw [mem_cons, not_or] at h
    rw [cons_append, lines, if_neg (Ne.symm h.1), ih h.2]

theorem unlines_cons (line : List Char) (ls : List (List Char)) : unlines (line :: ls) = line ++ '\n' :: unlines ls := by
  simp [unlines]

theorem lines_unlines {ls : List (List Char)} (h : ∀ line ∈ ls, '\n' ∉ line) : lines (unlines ls) = ls := by
  induction ls with
  | nil => rfl
  | cons line ls ih =>
    rw [unlines_cons, lines_append_feed (h line mem_cons_self), ih fun l hl => h l (mem_cons_of_mem _ hl)]

/-! ## Streams -/

/-- A string stream: what is left to read, and whether an input has failed. -/
structure Stream where
  rest : List Char
  fail : Bool
deriving DecidableEq

namespace Stream

def of (text : List Char) : Stream := ⟨text, false⟩

/-- `>>` for a string: the next word. The string keeps its value when there is none, or when an input has failed before. -/
def word (s : Stream) (old : List Char) : List Char × Stream :=
  if s.fail then (old, s)
  else
    match s.rest.dropWhile isSpace with
    | [] => (old, ⟨[], true⟩)
    | c :: rest => ((c :: rest).takeWhile fun c => !isSpace c, ⟨(c :: rest).dropWhile fun c => !isSpace c, false⟩)

def skip (s : Stream) : Stream := (s.word []).2

/-- The sign of a number, and what follows. -/
def sign : List Char → Bool × List Char
  | '-' :: rest => (true, rest)
  | '+' :: rest => (false, rest)
  | rest => (false, rest)

/-- `>>` for an unsigned integer below `bound`. A negative number is taken modulo the bound, a number that is too large gives
the largest value and fails, and anything else gives 0 and fails. -/
def number (bound : Nat) (s : Stream) (old : Nat) : Nat × Stream :=
  if s.fail then (old, s)
  else
    match s.rest.dropWhile isSpace with
    | [] => (old, ⟨[], true⟩)
    | c :: rest =>
      let (negative, rest) := sign (c :: rest)
      let digits := rest.takeWhile Char.isDigit
      let value := Nat.ofDigitChars 10 digits 0
      if digits = [] then (0, ⟨rest, true⟩)
      else if bound ≤ value then (bound - 1, ⟨rest.dropWhile Char.isDigit, true⟩)
      else (if negative then (bound - value) % bound else value, ⟨rest.dropWhile Char.isDigit, false⟩)

end Stream

structure IsWord (blanks w : List Char) : Prop where
  blank : ∀ c ∈ blanks, isSpace c = true
  nonempty : w ≠ []
  word : ∀ c ∈ w, isSpace c = false

instance (blanks w : List Char) : Decidable (IsWord blanks w) :=
  have := List.decidableBAll (fun c => isSpace c = true) blanks
  have := List.decidableBAll (fun c => isSpace c = false) w
  decidable_of_iff ((∀ c ∈ blanks, isSpace c = true) ∧ w ≠ [] ∧ ∀ c ∈ w, isSpace c = false)
    ⟨fun ⟨h1, h2, h3⟩ => ⟨h1, h2, h3⟩, fun h => ⟨h.blank, h.nonempty, h.word⟩⟩

namespace Stream

theorem word_append {blanks w rest : List Char} (hw : IsWord blanks w) (hrs : ∀ c ∈ rest.head?, isSpace c = true)
    (old : List Char) : (of (blanks ++ (w ++ rest))).word old = (w, of rest) := by
  have hword : ∀ c ∈ w, (!isSpace c) = true := by simpa using hw.word
  have htake : (w ++ rest).takeWhile (fun c => !isSpace c) = w := by
    rw [takeWhile_append_of_pos hword]
    cases rest with
    | nil => simp
    | cons c rest => simp [hrs c rfl]
  have hdrop : (w ++ rest).dropWhile (fun c => !isSpace c) = rest := by
    rw [dropWhile_append_of_pos hword]
    cases rest with
    | nil => simp
    | cons c rest => simp [hrs c rfl]
  have hskip : (blanks ++ (w ++ rest)).dropWhile isSpace = w ++ rest := by
    rw [dropWhile_append_of_pos hw.blank]
    cases w with
    | nil => exact absurd rfl hw.nonempty
    | cons c w => simp [hw.word c mem_cons_self]
  unfold word of
  rw [hskip]
  cases w with
  | nil => exact absurd rfl hw.nonempty
  | cons c w =>
    rw [cons_append] at htake hdrop ⊢
    simp only [Bool.false_eq_true, if_false, htake, hdrop]

theorem skip_word (blanks w rest : List Char) (hw : IsWord blanks w) :
    (of (blanks ++ (w ++ ' ' :: rest))).skip = of (' ' :: rest) := by
  have hrs : ∀ c ∈ (' ' :: rest).head?, isSpace c = true := by
    intro c hc
    obtain rfl : ' ' = c := by simpa using hc
    decide
  rw [skip, word_append hw hrs]

theorem isSpace_eq_false_of_isDigit {c : Char} (h : c.isDigit = true) : isSpace c = false := by
  simp only [Char.isDigit, Bool.and_eq_true, decide_eq_true_eq] at h
  simp only [isSpace, Bool.or_eq_false_iff, decide_eq_false_iff_not]
  refine ⟨⟨⟨⟨⟨?_, ?_⟩, ?_⟩, ?_⟩, ?_⟩, ?_⟩ <;>
  · rintro rfl
    revert h
    decide

theorem number_append {blanks rest digits : List Char} {negative : Bool} {n bound : Nat}
    (hblanks : ∀ c ∈ blanks, isSpace c = true) (hrs : ∀ c ∈ rest.head?, isSpace c = false)
    (hsign : sign rest = (negative, digits)) (hdig : digits = Nat.toDigits 10 n) (hn : n < bound) (old : Nat) :
    (of (blanks ++ rest)).number bound old = (if negative then (bound - n) % bound else n, of []) := by
  have hall : ∀ c ∈ digits, c.isDigit = true := by
    intro c hc
    rw [hdig] at hc
    exact Nat.isDigit_of_mem_toDigits (by decide) (by decide) hc
  have hne : digits ≠ [] := by
    rw [hdig]
    exact Nat.toDigits_ne_nil
  have hval : Nat.ofDigitChars 10 digits 0 = n := by
    rw [hdig]
    exact Nat.ofDigitChars_ten_toDigits
  have hskip : (blanks ++ rest).dropWhile isSpace = rest := by
    rw [dropWhile_append_of_pos hblanks]
    cases rest with
    | nil => rfl
    | cons c rest => simp [hrs c rfl]
  unfold number of
  rw [hskip]
  cases rest with
  | nil =>
    obtain ⟨-, rfl⟩ := Prod.mk.inj hsign
    exact absurd rfl hne
  | cons c rest =>
    have hbd : ¬bound ≤ n := by omega
    simp only [Bool.false_eq_true, if_false, hsign, takeWhile_eq_self_iff.2 hall, hval, hne, hbd, dropWhile_eq_nil_iff.2 hall]

end Stream

def decimal : Int → List Char
  | .ofNat n => Nat.toDigits 10 n
  | .negSucc n => '-' :: Nat.toDigits 10 (n + 1)

theorem mem_decimal {z : Int} {c : Char} (hc : c ∈ decimal z) : c.isDigit = true ∨ c = '-' := by
  cases z with
  | ofNat n => exact .inl (Nat.isDigit_of_mem_toDigits (by decide) (by decide) hc)
  | negSucc n =>
    rcases mem_cons.1 hc with rfl | hc
    · exact .inr rfl
    · exact .inl (Nat.isDigit_of_mem_toDigits (by decide) (by decide) hc)

theorem isSpace_of_mem_decimal {z : Int} {c : Char} (hc : c ∈ decimal z) : isSpace c = false := by
  rcases mem_decimal hc with hd | rfl
  · exact Stream.isSpace_eq_false_of_isDigit hd
  · decide

theorem sign_toDigits (n : Nat) : Stream.sign (Nat.toDigits 10 n) = (false, Nat.toDigits 10 n) := by
  have hall : ∀ c ∈ Nat.toDigits 10 n, c.isDigit = true := fun c hc => Nat.isDigit_of_mem_toDigits (by decide) (by decide) hc
  unfold Stream.sign
  split
  · rename_i h
    rw [h] at hall
    exact absurd (hall '-' mem_cons_self) (by decide)
  · rename_i h
    rw [h] at hall
    exact absurd (hall '+' mem_cons_self) (by decide)
  · rfl

theorem number_decimal {blanks : List Char} {z : Int} {bound : Nat} (hblanks : ∀ c ∈ blanks, isSpace c = true)
    (hlower : -(bound : Int) < z) (hupper : z < bound) (old : Nat) :
    (Stream.of (blanks ++ decimal z)).number bound old = ((z % bound).toNat, .of []) := by
  have hhead : ∀ c ∈ (decimal z).head?, isSpace c = false := fun c hc => isSpace_of_mem_decimal (mem_of_mem_head? hc)
  cases z with
  | ofNat n =>
    have hn : n < bound := by
      simp only [Int.ofNat_eq_natCast] at hupper
      omega
    rw [Stream.number_append hblanks hhead (sign_toDigits n) rfl hn]
    simp [Int.ofNat_eq_natCast, ← Int.natCast_emod, Nat.mod_eq_of_lt hn]
  | negSucc n =>
    have hn : n + 1 < bound := by omega
    rw [Stream.number_append (n := n + 1) hblanks hhead rfl rfl hn, if_pos rfl]
    have hmod : (Int.negSucc n) % bound = ((bound - (n + 1) : Nat) : Int) := by
      rw [← Int.add_emod_right, Int.emod_eq_of_lt] <;> omega
    rw [hmod, Int.toNat_natCast, Nat.mod_eq_of_lt (by omega)]

/-! ## Markers -/

/-- The marker is not in the text, and no beginning of it is an end of the text: behind the text, the marker has to be found in
what follows. -/
structure Clear (marker text : List Char) : Prop where
  overlap : ∀ m ∈ marker.inits, m ≠ [] → ¬m <:+ text
  not_infix : ¬marker <:+: text

instance (marker text : List Char) : Decidable (Clear marker text) :=
  decidable_of_iff ((∀ m ∈ marker.inits, m ≠ [] → ¬m <:+ text) ∧ ¬marker <:+: text)
    ⟨fun ⟨h1, h2⟩ => ⟨h1, h2⟩, fun h => ⟨h.overlap, h.not_infix⟩⟩

theorem Clear.infix_append_iff {marker text : List Char} (h : Clear marker text) (rest : List Char) :
    marker <:+: text ++ rest ↔ marker <:+: rest := by
  rw [infix_append_iff_ne_nil]
  constructor
  · rintro (hin | hin | ⟨l₁, l₂, hne, -, hl, hsuf, -⟩)
    · exact absurd hin h.not_infix
    · exact hin
    · exact absurd hsuf (h.overlap l₁ ((mem_inits _ _).2 ⟨l₂, hl.symm⟩) hne)
  · intro hin
    exact .inr (.inl hin)

theorem not_infix_of_not_mem {marker text : List Char} {c : Char} (hc : c ∈ marker) (h : c ∉ text) : ¬marker <:+: text :=
  fun hin => h (hin.subset hc)

end Text
