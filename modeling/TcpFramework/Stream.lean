/-
  TcpFramework.Stream — the formatted output and input of std::stringstream.

  `<<` writes an int in decimal; `>>` skips blanks and takes an int, or a word.  A number
  that is written is read back.
-/
import Mathlib.Tactic.Common
import Mathlib.Data.List.TakeWhile

namespace TcpFramework

/-! ## §1. What is written. -/

/-- Decimal digits. -/
def decimal (n : Nat) : List Char := Nat.toDigits 10 n

/-- What `<<` writes for an int. -/
def decimalInt : Int → List Char
  | .ofNat n => decimal n
  | .negSucc n => '-' :: decimal (n + 1)

/-! ## §2. What is read. -/

/-- std::isspace. -/
def isspace (c : Char) : Bool := c ∈ [' ', '\t', '\n', '\x0b', '\x0c', '\r']

/-- Digits up to the first other character, and at least one. -/
def readDigits (s : List Char) : Option Nat :=
  let digits := s.takeWhile Char.isDigit
  if digits = [] then none else some (Nat.ofDigitChars 10 digits 0)

/-- A sign may stand before them. -/
def readSigned : List Char → Option Int
  | '-' :: s => (readDigits s).map fun n : Nat => -(n : Int)
  | '+' :: s => (readDigits s).map fun n : Nat => (n : Int)
  | s => (readDigits s).map fun n : Nat => (n : Int)

/-- `>>` to an int.  It skips blanks, and fails on a number that an int does not hold. -/
def readInt (s : List Char) : Option Int :=
  (readSigned (s.dropWhile isspace)).filter fun v =>
    Int32.minValue.toInt ≤ v ∧ v ≤ Int32.maxValue.toInt

/-- The text without its sign. -/
def unsigned : List Char → List Char
  | '-' :: s => s
  | '+' :: s => s
  | s => s

/-- What stands behind the blanks, the sign and the digits that `>>` to an int reads. -/
def afterNumber (s : List Char) : List Char :=
  (unsigned (s.dropWhile isspace)).dropWhile Char.isDigit

/-- `>>` to a string: it skips blanks and takes the characters up to the next one, and
fails when there are none. -/
def readWord (s : List Char) : Option (List Char) :=
  let word := (s.dropWhile isspace).takeWhile fun c => !isspace c
  if word = [] then none else some word

/-! ## §3. The characters of a number. -/

theorem isDigit_of_mem_decimal {n : Nat} {c : Char} (h : c ∈ decimal n) : c.isDigit = true :=
  Nat.isDigit_of_mem_toDigits (by decide) (by decide) h

theorem isspace_of_isDigit {c : Char} (h : c.isDigit = true) : isspace c = false := by
  unfold isspace
  rw [decide_eq_false_iff_not]
  intro hc
  simp only [List.mem_cons, List.not_mem_nil, or_false] at hc
  rcases hc with rfl | rfl | rfl | rfl | rfl | rfl <;> exact absurd h (by decide)

theorem decimal_ne_nil (n : Nat) : decimal n ≠ [] := Nat.toDigits_ne_nil

/-- No sign stands before the digits. -/
theorem decimal_ne_sign {n : Nat} {sign : Char} {s : List Char} (hs : sign.isDigit = false) :
    decimal n ≠ sign :: s := by
  intro h
  have hdigit : sign.isDigit = true := isDigit_of_mem_decimal (h ▸ List.mem_cons_self)
  rw [hs] at hdigit
  exact absurd hdigit (by decide)

theorem mem_decimalInt {i : Int} {c : Char} (h : c ∈ decimalInt i) :
    c.isDigit = true ∨ c = '-' := by
  cases i with
  | ofNat n => exact Or.inl (isDigit_of_mem_decimal h)
  | negSucc n =>
      rcases List.mem_cons.mp h with hc | hc
      · exact Or.inr hc
      · exact Or.inl (isDigit_of_mem_decimal hc)

theorem not_mem_decimalInt {i : Int} {d : Char} (hd : d.isDigit = false) (hminus : d ≠ '-') :
    d ∉ decimalInt i := by
  intro h
  rcases mem_decimalInt h with h | h
  · rw [hd] at h
    exact absurd h (by decide)
  · exact hminus h

/-! ## §4. Reading back. -/

theorem readDigits_decimal (n : Nat) : readDigits (decimal n) = some n := by
  have hall : (decimal n).takeWhile Char.isDigit = decimal n :=
    List.takeWhile_eq_self_iff.mpr fun c hc => isDigit_of_mem_decimal hc
  unfold readDigits
  rw [hall, if_neg (decimal_ne_nil n)]
  exact congrArg some Nat.ofDigitChars_ten_toDigits

theorem readSigned_decimalInt (i : Int) : readSigned (decimalInt i) = some i := by
  cases i with
  | negSucc n =>
      show (readDigits (decimal (n + 1))).map (fun n : Nat => -(n : Int)) = _
      rw [readDigits_decimal]
      rfl
  | ofNat n =>
      have hread : readSigned (decimal n)
          = (readDigits (decimal n)).map fun n : Nat => (n : Int) := by
        unfold readSigned
        split
        next s hs => exact absurd hs (decimal_ne_sign (by decide))
        next s hs => exact absurd hs (decimal_ne_sign (by decide))
        next => rfl
      show readSigned (decimal n) = _
      rw [hread, readDigits_decimal]
      rfl

/-- A number has no blanks before it. -/
theorem dropWhile_isspace_decimalInt (i : Int) :
    (decimalInt i).dropWhile isspace = decimalInt i := by
  cases hs : decimalInt i with
  | nil => rfl
  | cons c cs =>
      have hc : isspace c = false := by
        rcases mem_decimalInt (hs ▸ List.mem_cons_self : c ∈ decimalInt i) with hc | hc
        · exact isspace_of_isDigit hc
        · rw [hc]
          decide
      exact List.dropWhile_cons_of_neg (by rw [hc]; decide)

/-- **A rendered key is read back.** -/
theorem readInt_decimalInt (k : Int32) : readInt (decimalInt k.toInt) = some k.toInt := by
  unfold readInt
  rw [dropWhile_isspace_decimalInt, readSigned_decimalInt, Option.filter_some, if_pos]
  exact decide_eq_true ⟨k.minValue_le_toInt, k.toInt_le⟩

/-! ## §5. Words. -/

/-- The first word of a text: there are only blanks before it, and a blank or nothing
behind it. -/
def IsFirstWord (word s : List Char) : Prop :=
  ∃ blanks rest, s = blanks ++ (word ++ rest) ∧ (∀ c ∈ blanks, isspace c = true) ∧ word ≠ []
    ∧ (∀ c ∈ word, isspace c = false) ∧ ∀ c ∈ rest.head?, isspace c = true

/-- **`>>` takes the first word.** -/
theorem readWord_of_isFirstWord {word s : List Char} (h : IsFirstWord word s) :
    readWord s = some word := by
  obtain ⟨blanks, rest, rfl, hblanks, hne, hword, hrest⟩ := h
  have hkeeps : ∀ c ∈ word, (!isspace c) = true := by
    intro c hc
    rw [hword c hc]
    rfl
  have hdrop : (blanks ++ (word ++ rest)).dropWhile isspace = word ++ rest := by
    rw [List.dropWhile_append_of_pos hblanks]
    -- the word does not start with a blank
    cases word with
    | nil => exact absurd rfl hne
    | cons c cs =>
        refine List.dropWhile_cons_of_neg ?_
        rw [hword c List.mem_cons_self]
        decide
  have hstop : rest.takeWhile (fun c => !isspace c) = [] := by
    cases rest with
    | nil => rfl
    | cons c cs =>
        refine List.takeWhile_cons_of_neg ?_
        rw [hrest c rfl]
        decide
  unfold readWord
  rw [hdrop, List.takeWhile_append_of_pos hkeeps, hstop, List.append_nil]
  exact if_neg hne

end TcpFramework
