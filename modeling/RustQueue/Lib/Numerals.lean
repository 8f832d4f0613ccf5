import Mathlib.Tactic

/-!
# Numerals

Reading a machine integer from its digits, as the standard library of the source language does: digits
and letters are digits up to the radix, a number that does not fit is refused, and so is the
empty text; a sign may stand in front, a minus only where the type has negative numbers.

* `readDigits_eq_some`: digits are read exactly if they are digits of the radix and their value fits;
* `value_injective`: numerals of one length with the same value have the same digits;
* `toLower_eq_digitChar`: a character that stands for a digit is the character of the digit, up to case;
* `value_digits`: the last digits of a number read back as the number modulo a power of the radix.
-/

namespace RustQueue.Lib

/-! ### Digits -/

/-- The value of a digit or a letter. -/
def digitValue (c : Char) : Option ℕ :=
  if '0' ≤ c ∧ c ≤ '9' then some (c.toNat - '0'.toNat)
  else if 'a' ≤ c ∧ c ≤ 'z' then some (c.toNat - 'a'.toNat + 10)
  else if 'A' ≤ c ∧ c ≤ 'Z' then some (c.toNat - 'A'.toNat + 10)
  else none

/-- A digit of the radix. -/
def digit (radix : ℕ) (c : Char) : Option ℕ := (digitValue c).filter (· < radix)

/-- Whether a character is a digit of the radix. -/
def IsDigit (radix : ℕ) (c : Char) : Prop := (digit radix c).isSome

instance (radix : ℕ) (c : Char) : Decidable (IsDigit radix c) := by
  unfold IsDigit
  infer_instance

variable {radix : ℕ}

theorem isDigit_iff {c : Char} : IsDigit radix c ↔ ∃ d, digitValue c = some d ∧ d < radix := by
  unfold IsDigit digit
  rw [Option.isSome_iff_exists]
  simp only [Option.filter_eq_some_iff, decide_eq_true_eq]

/-- The value of digits behind those that are read already. -/
def value (radix : ℕ) (sofar : ℕ) (text : List Char) : ℕ :=
  text.foldl (fun sofar c => sofar * radix + (digitValue c).getD 0) sofar

/-- The digits of a text are read one by one as long as the number fits. -/
def readDigits (radix max : ℕ) : ℕ → List Char → Option ℕ
  | sofar, [] => some sofar
  | sofar, c :: rest => do
    let d ← digit radix c
    if sofar * radix + d ≤ max then readDigits radix max (sofar * radix + d) rest else none

/-- An unsigned integer. -/
def parseUnsigned (radix max : ℕ) : List Char → Option ℕ
  | [] => none
  | ['+'] => none
  | '+' :: rest => readDigits radix max 0 rest
  | text => readDigits radix max 0 text

/-- A signed integer, from the largest and the least of its type. -/
def parseSigned (radix max minAbs : ℕ) : List Char → Option ℤ
  | [] => none
  | ['+'] => none
  | ['-'] => none
  | '+' :: rest => (readDigits radix max 0 rest).map fun n => (n : ℤ)
  | '-' :: rest => (readDigits radix minAbs 0 rest).map fun n => -(n : ℤ)
  | text => (readDigits radix max 0 text).map fun n => (n : ℤ)

/-! ### What is read -/

theorem le_value (hradix : 0 < radix) (sofar : ℕ) (text : List Char) :
    sofar ≤ value radix sofar text := by
  induction text generalizing sofar with
  | nil => exact le_rfl
  | cons c text ih =>
    refine le_trans ?_ (ih _)
    calc sofar ≤ sofar * radix := Nat.le_mul_of_pos_right _ hradix
      _ ≤ sofar * radix + (digitValue c).getD 0 := Nat.le_add_right _ _

theorem readDigits_eq_some {max : ℕ} (hradix : 0 < radix) {sofar n : ℕ} (hsofar : sofar ≤ max)
    {text : List Char} :
    readDigits radix max sofar text = some n ↔
      (∀ c ∈ text, IsDigit radix c) ∧ n = value radix sofar text ∧ n ≤ max := by
  induction text generalizing sofar with
  | nil =>
    rw [readDigits, Option.some.injEq]
    constructor
    · rintro rfl
      exact ⟨by simp, rfl, hsofar⟩
    · rintro ⟨-, rfl, -⟩
      rfl
  | cons c text ih =>
    rw [readDigits, List.forall_mem_cons, isDigit_iff]
    show (digit radix c).bind _ = _ ↔ _
    rw [digit]
    cases hvalue : digitValue c with
    | none => simp
    | some d =>
      by_cases hd : d < radix
      · have hnext : value radix sofar (c :: text) = value radix (sofar * radix + d) text := by
          rw [value, List.foldl_cons, hvalue]
          rfl
        rw [hnext, Option.filter_some, decide_eq_true hd]
        show (if sofar * radix + d ≤ max then _ else none) = some n ↔ _
        by_cases hfits : sofar * radix + d ≤ max
        · rw [if_pos hfits, ih hfits]
          simp [hd]
        · rw [if_neg hfits]
          refine iff_of_false (by simp) ?_
          rintro ⟨-, rfl, hle⟩
          exact hfits ((le_value hradix _ _).trans hle)
      · rw [Option.filter_some, decide_eq_false hd]
        simp [hd]

theorem not_isDigit_plus (radix : ℕ) : ¬IsDigit radix '+' := by
  rw [isDigit_iff]
  rintro ⟨d, hd, -⟩
  cases hd

/-- **An unsigned integer is digits that fit**, or a plus sign and such digits. -/
theorem parseUnsigned_eq_some {max n : ℕ} (hradix : 0 < radix) {text : List Char} :
    parseUnsigned radix max text = some n ↔
      ∃ digits, digits ≠ [] ∧ (text = digits ∨ text = '+' :: digits) ∧
        (∀ c ∈ digits, IsDigit radix c) ∧ n = value radix 0 digits ∧ n ≤ max := by
  have hread := @readDigits_eq_some radix max hradix 0 n (Nat.zero_le _)
  constructor
  · intro h
    unfold parseUnsigned at h
    split at h
    case h_1 => cases h
    case h_2 => cases h
    case h_3 rest hrest =>
      exact ⟨rest, by rintro rfl; exact hrest rfl, .inr rfl, hread.1 h⟩
    case h_4 hne _ _ => exact ⟨text, hne, .inl rfl, hread.1 h⟩
  · rintro ⟨digits, hne, htext, hdigits⟩
    have hval := hread.2 hdigits
    rcases htext with rfl | rfl
    · cases text with
      | nil => exact absurd rfl hne
      | cons c rest =>
        -- a digit is not the plus sign
        have hplus : c ≠ '+' := by
          rintro rfl
          exact not_isDigit_plus radix (hdigits.1 '+' List.mem_cons_self)
        rw [parseUnsigned]
        · exact hval
        · simp
        · simp [hplus]
        · intro rest' heq
          exact hplus (List.cons.inj heq).1
    · cases digits with
      | nil => exact absurd rfl hne
      | cons c rest =>
        rw [parseUnsigned]
        · exact hval
        · simp

theorem value_lt {text : List Char} (h : ∀ c ∈ text, IsDigit radix c) (sofar : ℕ) :
    value radix sofar text < (sofar + 1) * radix ^ text.length := by
  induction text generalizing sofar with
  | nil => simp [value]
  | cons c text ih =>
    obtain ⟨d, hd, hlt⟩ := isDigit_iff.1 (h c List.mem_cons_self)
    have hrest := ih (fun e he => h e (List.mem_cons_of_mem _ he)) (sofar * radix + d)
    have hnext : value radix sofar (c :: text) = value radix (sofar * radix + d) text := by
      rw [value, List.foldl_cons, hd]
      rfl
    rw [hnext, List.length_cons, pow_succ]
    calc value radix (sofar * radix + d) text < (sofar * radix + d + 1) * radix ^ text.length := hrest
      _ ≤ ((sofar + 1) * radix) * radix ^ text.length := by
        refine Nat.mul_le_mul_right _ ?_
        rw [Nat.add_mul]
        omega
      _ = (sofar + 1) * (radix ^ text.length * radix) := by ring

/-- **Numerals of one length** with the same value have the same digits. -/
theorem value_injective {text text' : List Char} (hlength : text.length = text'.length)
    (h : ∀ c ∈ text, IsDigit radix c) (h' : ∀ c ∈ text', IsDigit radix c) {sofar sofar' : ℕ}
    (hvalue : value radix sofar text = value radix sofar' text') :
    sofar = sofar' ∧ text.map digitValue = text'.map digitValue := by
  induction text generalizing text' sofar sofar' with
  | nil =>
    cases text' with
    | nil => exact ⟨hvalue, rfl⟩
    | cons _ _ => cases hlength
  | cons c text ih =>
    cases text' with
    | nil => cases hlength
    | cons c' text' =>
      obtain ⟨d, hd, hlt⟩ := isDigit_iff.1 (h c List.mem_cons_self)
      obtain ⟨d', hd', hlt'⟩ := isDigit_iff.1 (h' c' List.mem_cons_self)
      rw [value, value, List.foldl_cons, List.foldl_cons, hd, hd'] at hvalue
      obtain ⟨hfront, hrest⟩ := ih (Nat.succ.inj hlength) (fun e he => h e (List.mem_cons_of_mem _ he))
        (fun e he => h' e (List.mem_cons_of_mem _ he)) hvalue
      -- the digit is the remainder and the front the quotient
      have hfront' : sofar * radix + d = sofar' * radix + d' := hfront
      have hpos : 0 < radix := by omega
      have hdigit : d = d' := by
        have hmod := congrArg (· % radix) hfront'
        simpa only [Nat.add_mod, Nat.mul_mod_left, Nat.zero_add, Nat.mod_eq_of_lt hlt,
          Nat.mod_eq_of_lt hlt'] using hmod
      refine ⟨?_, ?_⟩
      · have : sofar * radix = sofar' * radix := by omega
        exact Nat.eq_of_mul_eq_mul_right hpos this
      · rw [List.map_cons, List.map_cons, hd, hd', hdigit, hrest]

/-! ### Letters of either case -/

/-- The lower case character of a digit value. -/
def digitChar (d : ℕ) : Char := Char.ofNat (if d < 10 then '0'.toNat + d else 'a'.toNat + d - 10)

theorem toLower_eq_digitChar {c : Char} {d : ℕ} (h : digitValue c = some d) :
    c.toLower = digitChar d := by
  have hc : Char.ofNat c.toNat = c := Char.ofNat_toNat c
  unfold digitValue at h
  split_ifs at h with hdigit hlower hupper
  · have hfirst : 48 ≤ c.toNat := hdigit.1
    have hlast : c.toNat ≤ 57 := hdigit.2
    cases h
    rw [← hc]
    generalize c.toNat = n at hfirst hlast
    interval_cases n <;> rfl
  · have hfirst : 97 ≤ c.toNat := hlower.1
    have hlast : c.toNat ≤ 122 := hlower.2
    cases h
    rw [← hc]
    generalize c.toNat = n at hfirst hlast
    interval_cases n <;> rfl
  · have hfirst : 65 ≤ c.toNat := hupper.1
    have hlast : c.toNat ≤ 90 := hupper.2
    cases h
    rw [← hc]
    generalize c.toNat = n at hfirst hlast
    interval_cases n <;> rfl

/-! ### Writing digits -/

/-- The last `width` digits of a number, in lower case. -/
def digits (radix : ℕ) : ℕ → ℕ → List Char
  | 0, _ => []
  | width + 1, n => digits radix width (n / radix) ++ [digitChar (n % radix)]

@[simp] theorem length_digits (radix width n : ℕ) : (digits radix width n).length = width := by
  induction width generalizing n with
  | zero => rfl
  | succ width ih => rw [digits, List.length_append, ih, List.length_singleton]

theorem digitValue_digitChar {d : ℕ} (h : d < 36) : digitValue (digitChar d) = some d := by
  interval_cases d <;> rfl

theorem value_append (radix sofar : ℕ) (text more : List Char) :
    value radix sofar (text ++ more) = value radix (value radix sofar text) more :=
  List.foldl_append

theorem value_digits (hpos : 0 < radix) (hradix : radix ≤ 36) (width n : ℕ) :
    value radix 0 (digits radix width n) = n % radix ^ width := by
  induction width generalizing n with
  | zero => rw [pow_zero, Nat.mod_one]; rfl
  | succ width ih =>
    have hlast : n % radix < radix := Nat.mod_lt _ hpos
    have hdigit : digitValue (digitChar (n % radix)) = some (n % radix) :=
      digitValue_digitChar (hlast.trans_le hradix)
    rw [digits, value_append, ih, value, List.foldl_cons, List.foldl_nil, hdigit, Option.getD_some,
      pow_succ, Nat.mul_comm (radix ^ width) radix, Nat.mod_mul, Nat.mul_comm _ radix, Nat.add_comm]

theorem isDigit_of_mem_digits (hpos : 0 < radix) (hradix : radix ≤ 36) {width n : ℕ} {c : Char}
    (h : c ∈ digits radix width n) : IsDigit radix c := by
  induction width generalizing n with
  | zero => cases h
  | succ width ih =>
    rcases List.mem_append.1 h with hfront | hlast
    · exact ih hfront
    · have hlt : n % radix < radix := Nat.mod_lt _ hpos
      rw [List.mem_singleton.1 hlast]
      exact isDigit_iff.2 ⟨_, digitValue_digitChar (hlt.trans_le hradix), hlt⟩

/-- Digits are ASCII characters. -/
theorem IsDigit.ascii {c : Char} (h : IsDigit radix c) : c.toNat < 128 := by
  obtain ⟨d, hd, -⟩ := isDigit_iff.1 h
  unfold digitValue at hd
  split_ifs at hd with hdigit hlower hupper
  · have hle : c.toNat ≤ 57 := hdigit.2
    omega
  · have hle : c.toNat ≤ 122 := hlower.2
    omega
  · have hle : c.toNat ≤ 90 := hupper.2
    omega

end RustQueue.Lib
