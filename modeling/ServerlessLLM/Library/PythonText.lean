import ServerlessLLM.Library.Text

/-!
# Text in Python

What the methods of `str`, the lines of a text file, `int` and the patterns of `re` do, on lists of characters. Which characters
outside ASCII are digits is left open.
-/

namespace PythonText

open Text List

/-- `str.isspace` for one character; `\s` of a pattern matches the same. -/
def isSpace (c : Char) : Bool :=
  let n := c.toNat
  (9 ≤ n && n ≤ 13) || (28 ≤ n && n ≤ 32) || n = 0x85 || n = 0xa0 || n = 0x1680 || (0x2000 ≤ n && n ≤ 0x200a) ||
    n = 0x2028 || n = 0x2029 || n = 0x202f || n = 0x205f || n = 0x3000

/-- The characters at which `str.splitlines` ends a line. -/
def isLineBreak (c : Char) : Bool :=
  let n := c.toNat
  (10 ≤ n && n ≤ 13) || (28 ≤ n && n ≤ 30) || n = 0x85 || n = 0x2028 || n = 0x2029

/-! ## Lines -/

/-- The text as a file that is opened as text gives it: every line ends with a line feed. -/
def universalNewlines : List Char → List Char
  | '\r' :: '\n' :: text => '\n' :: universalNewlines text
  | '\r' :: text => '\n' :: universalNewlines text
  | c :: text => c :: universalNewlines text
  | [] => []

def splitlines : List Char → List (List Char)
  | '\r' :: '\n' :: text => [] :: splitlines text
  | c :: text =>
    if isLineBreak c then [] :: splitlines text
    else
      match splitlines text with
      | [] => [[c]]
      | line :: rest => (c :: line) :: rest
  | [] => []

/-- The lines that an open text file is iterated over, each with its line feed. -/
def fileLines : List Char → List (List Char)
  | [] => []
  | c :: text =>
    if c = '\n' then ['\n'] :: fileLines text
    else
      match fileLines text with
      | [] => [[c]]
      | line :: rest => (c :: line) :: rest

theorem universalNewlines_eq {text : List Char} (h : '\r' ∉ text) : universalNewlines text = text := by
  induction text with
  | nil => rfl
  | cons c text ih =>
    rw [mem_cons, not_or] at h
    rw [universalNewlines.eq_3, ih h.2]
    · exact fun _ hc => absurd hc.symm h.1
    · exact fun hc => absurd hc.symm h.1

variable {ls : List (List Char)} {line : List Char}

theorem universalNewlines_unlines (h : ∀ line ∈ ls, ∀ c ∈ line, isLineBreak c = false) :
    universalNewlines (unlines ls) = unlines ls := by
  refine universalNewlines_eq ?_
  intro hmem
  obtain ⟨line, hline, hc⟩ := mem_flatMap.1 hmem
  rcases mem_append.1 hc with hc | hc
  · exact absurd (h line hline _ hc) (by decide)
  · simp at hc

theorem splitlines_append_feed (h : ∀ c ∈ line, isLineBreak c = false) (text : List Char) :
    splitlines (line ++ '\n' :: text) = line :: splitlines text := by
  induction line with
  | nil => rfl
  | cons c line ih =>
    have hc := h c mem_cons_self
    have hr : c ≠ '\r' := by
      rintro rfl
      exact absurd hc (by decide)
    rw [cons_append, splitlines.eq_2, if_neg (by simp [hc]), ih fun d hd => h d (mem_cons_of_mem _ hd)]
    exact fun _ hc' => absurd hc' hr

theorem splitlines_unlines (h : ∀ line ∈ ls, ∀ c ∈ line, isLineBreak c = false) :
    splitlines (universalNewlines (unlines ls)) = ls := by
  rw [universalNewlines_unlines h]
  induction ls with
  | nil => rfl
  | cons line ls ih =>
    rw [unlines_cons, splitlines_append_feed (h line mem_cons_self), ih fun l hl => h l (mem_cons_of_mem _ hl)]

theorem fileLines_append_feed (h : '\n' ∉ line) (text : List Char) :
    fileLines (line ++ '\n' :: text) = (line ++ ['\n']) :: fileLines text := by
  induction line with
  | nil => rfl
  | cons c line ih =>
    rw [mem_cons, not_or] at h
    rw [cons_append, fileLines, if_neg (Ne.symm h.1), ih h.2]
    rfl

theorem fileLines_unlines (h : ∀ line ∈ ls, ∀ c ∈ line, isLineBreak c = false) :
    fileLines (universalNewlines (unlines ls)) = ls.map (· ++ ['\n']) := by
  rw [universalNewlines_unlines h]
  induction ls with
  | nil => rfl
  | cons line ls ih =>
    have hfeed : '\n' ∉ line := fun hc => absurd (h line mem_cons_self _ hc) (by decide)
    rw [unlines_cons, fileLines_append_feed hfeed, ih fun l hl => h l (mem_cons_of_mem _ hl), map_cons]

/-! ## Strings -/

def strip (s : List Char) : List Char := ((s.dropWhile isSpace).reverse.dropWhile isSpace).reverse

/-- `s.split(":", 1)[1]`. -/
def behindColon (s : List Char) : List Char := (s.dropWhile (· ≠ ':')).tail

theorem dropWhile_isSpace_word {w rest : List Char} (hne : w ≠ []) (hw : ∀ c ∈ w, isSpace c = false) :
    (w ++ rest).dropWhile isSpace = w ++ rest := by
  cases w with
  | nil => exact absurd rfl hne
  | cons c w => simp [hw c mem_cons_self]

theorem strip_append {before s behind : List Char} (hbef : ∀ c ∈ before, isSpace c = true)
    (hbhd : ∀ c ∈ behind, isSpace c = true) (hhead : ∀ c ∈ s.head?, isSpace c = false)
    (hla : ∀ c ∈ s.getLast?, isSpace c = false) : strip (before ++ (s ++ behind)) = s := by
  unfold strip
  rw [dropWhile_append_of_pos hbef]
  cases s with
  | nil =>
    rw [nil_append, dropWhile_eq_nil_iff.2 hbhd]
    rfl
  | cons c s =>
    have hc := hhead c rfl
    rw [cons_append, dropWhile_cons_of_neg (by simp [hc]), ← cons_append, reverse_append,
      dropWhile_append_of_pos (by simpa using hbhd)]
    have hdrop : (c :: s).reverse.dropWhile isSpace = (c :: s).reverse := by
      cases hr : (c :: s).reverse with
      | nil => rfl
      | cons d r =>
        have hd : isSpace d = false := hla d (by rw [getLast?_eq_head?_reverse, hr]; rfl)
        rw [dropWhile_cons_of_neg (by simp [hd])]
    rw [hdrop, reverse_reverse]

/-! ## Numbers -/

section Numbers

-- the value of a decimal digit of Unicode
variable (digit : Char → Option Nat)

/-- The digits of ASCII have their values, and no other character of ASCII is a digit. -/
def AsciiDigits : Prop := ∀ c : Char, c.toNat < 128 → digit c = if c.isDigit then some (c.toNat - '0'.toNat) else none

/-- The digits behind a sign, with single underscores between them. `after` tells whether a digit stands before. -/
def digitsValue : List Char → Bool → Nat → Option Nat
  | [], after, value => if after then some value else none
  | c :: s, after, value =>
    if c = '_' then if after then digitsValue s false value else none
    else
      match digit c with
      | some d => digitsValue s true (10 * value + d)
      | none => none

/-- `int(s)`, or the exception. -/
def toInt? (s : List Char) : Option Int :=
  let (negative, digits) := Stream.sign (strip s)
  (digitsValue digit digits false 0).map fun n => if negative then -(n : Int) else n

/-- `\s*(\d+)` at the start of a text: the number, and what follows. -/
def matchDigits (s : List Char) : Option (Nat × List Char) :=
  let s := s.dropWhile isSpace
  let digits := s.takeWhile fun c => (digit c).isSome
  if digits = [] then none else some (digits.foldl (fun n c => 10 * n + (digit c).getD 0) 0, s.drop digits.length)

variable {digit}

variable {c : Char} {before : List Char}

theorem toNat_of_isDigit (h : c.isDigit = true) : 48 ≤ c.toNat ∧ c.toNat ≤ 57 := by
  simp only [Char.isDigit, Bool.and_eq_true, decide_eq_true_eq] at h
  exact ⟨UInt32.le_iff_toNat_le.1 h.1, UInt32.le_iff_toNat_le.1 h.2⟩

theorem isSpace_of_isDigit (h : c.isDigit = true) : isSpace c = false := by
  have := toNat_of_isDigit h
  simp only [isSpace, Bool.or_eq_false_iff, Bool.and_eq_false_iff, decide_eq_false_iff_not]
  omega

theorem AsciiDigits.some (hd : AsciiDigits digit) (h : c.isDigit = true) : digit c = some (c.toNat - '0'.toNat) := by
  have := toNat_of_isDigit h
  rw [hd c (by omega), if_pos h]

theorem digitsValue_of_isDigit (hd : AsciiDigits digit) {s : List Char} (h : ∀ c ∈ s, c.isDigit = true)
    (after : Bool) (value : Nat)
    (hne : s ≠ [] ∨ after = true) : digitsValue digit s after value = some (Nat.ofDigitChars 10 s value) := by
  induction s generalizing after value with
  | nil =>
    obtain rfl := hne.resolve_left fun hn => hn rfl
    rfl
  | cons c s ih =>
    have hc := h c mem_cons_self
    have hne' : c ≠ '_' := by
      rintro rfl
      exact absurd hc (by decide)
    rw [digitsValue, if_neg hne', hd.some hc]
    simp only
    rw [ih (fun d hd' => h d (mem_cons_of_mem _ hd')) true _ (.inr rfl)]
    rfl

theorem isDigit_toDigits (n : Nat) : ∀ c ∈ Nat.toDigits 10 n, c.isDigit = true :=
  fun _ hc => Nat.isDigit_of_mem_toDigits (by decide) (by decide) hc

theorem strip_decimal (hbef : ∀ c ∈ before, isSpace c = true) (n : Nat) : strip (before ++ decimal n) = Nat.toDigits 10 n := by
  have h : strip (before ++ (Nat.toDigits 10 n ++ [])) = Nat.toDigits 10 n := strip_append hbef (by simp)
    (fun c hc => isSpace_of_isDigit (isDigit_toDigits n c (mem_of_mem_head? hc)))
    fun c hc => isSpace_of_isDigit (isDigit_toDigits n c (mem_of_getLast? hc))
  rwa [append_nil] at h

theorem toInt?_decimal (hd : AsciiDigits digit) (hbef : ∀ c ∈ before, isSpace c = true) (n : Nat) :
    toInt? digit (before ++ decimal n) = some (n : Int) := by
  unfold toInt?
  rw [strip_decimal hbef, sign_toDigits]
  simp only
  rw [digitsValue_of_isDigit hd (isDigit_toDigits n) _ _ (.inl Nat.toDigits_ne_nil), Nat.ofDigitChars_ten_toDigits]
  rfl

theorem foldl_digit (hd : AsciiDigits digit) {s : List Char} (h : ∀ c ∈ s, c.isDigit = true) (value : Nat) :
    s.foldl (fun n c => 10 * n + (digit c).getD 0) value = Nat.ofDigitChars 10 s value := by
  induction s generalizing value with
  | nil => rfl
  | cons c s ih =>
    rw [foldl_cons, hd.some (h c mem_cons_self), ih fun d hd' => h d (mem_cons_of_mem _ hd')]
    rfl

theorem matchDigits_decimal (hd : AsciiDigits digit) (hbef : ∀ c ∈ before, isSpace c = true) (n : Nat)
    {rest : List Char} (hrs : ∀ c ∈ rest.head?, digit c = none) :
    matchDigits digit (before ++ (decimal n ++ rest)) = some (n, rest) := by
  have hall : ∀ c ∈ Nat.toDigits 10 n, (digit c).isSome = true := fun c hc => by rw [hd.some (isDigit_toDigits n c hc)]; rfl
  have htake : (Nat.toDigits 10 n ++ rest).takeWhile (fun c => (digit c).isSome) = Nat.toDigits 10 n := by
    rw [takeWhile_append_of_pos hall]
    cases rest with
    | nil => simp
    | cons c rest => simp [hrs c rfl]
  have hskip : (before ++ (decimal n ++ rest)).dropWhile isSpace = Nat.toDigits 10 n ++ rest := by
    rw [dropWhile_append_of_pos hbef]
    exact dropWhile_isSpace_word Nat.toDigits_ne_nil fun c hc => isSpace_of_isDigit (isDigit_toDigits n c hc)
  unfold matchDigits
  simp only
  rw [hskip, htake, if_neg Nat.toDigits_ne_nil, foldl_digit hd (isDigit_toDigits n), Nat.ofDigitChars_ten_toDigits, drop_left]

end Numbers

/-! ## Patterns -/

/-- `\s*(\S+)` at the start of a text: the word. -/
def matchWord (s : List Char) : Option (List Char) :=
  let w := (s.dropWhile isSpace).takeWhile fun c => !isSpace c
  if w = [] then none else some w

theorem matchWord_append {before w rest : List Char} (hbef : ∀ c ∈ before, isSpace c = true) (hne : w ≠ [])
    (hw : ∀ c ∈ w, isSpace c = false) (hrs : ∀ c ∈ rest.head?, isSpace c = true) :
    matchWord (before ++ (w ++ rest)) = some w := by
  have htake : (w ++ rest).takeWhile (fun c => !isSpace c) = w := by
    rw [takeWhile_append_of_pos (by simpa using hw)]
    cases rest with
    | nil => simp
    | cons c rest => simp [hrs c rfl]
  unfold matchWord
  simp only
  rw [dropWhile_append_of_pos hbef, dropWhile_isSpace_word hne hw, htake, if_neg hne]

/-- `re.search` for a literal and what a matcher finds behind it: the first place where both match. -/
def search {α : Type} (literal : List Char) (behind : List Char → Option α) (line : List Char) : Option α :=
  line.tails.findSome? fun t => if literal <+: t then behind (t.drop literal.length) else none

theorem search_append {α : Type} {literal rest : List Char} {behind : List Char → Option α} {x : α} (h : behind rest = some x) :
    search literal behind (literal ++ rest) = some x := by
  have hself : ∀ t : List Char, t.tails = t :: t.tails.tail := fun t => by cases t <;> rfl
  unfold search
  rw [hself, findSome?_cons]
  simp [h]

theorem search_eq_none {α : Type} {literal line : List Char} (h : ¬literal <:+: line) (behind : List Char → Option α) :
    search literal behind line = none := by
  rw [search, findSome?_eq_none_iff]
  intro t ht
  rw [if_neg]
  rintro ⟨r, rfl⟩
  obtain ⟨l, hl⟩ := (mem_tails _ _).1 ht
  exact h ⟨l, r, by rw [append_assoc, hl]⟩

end PythonText
