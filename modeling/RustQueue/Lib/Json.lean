import Mathlib.Data.Finset.Sort
import Mathlib.Tactic
import RustQueue.Lib.Maps
import RustQueue.Lib.Text

/-!
# JSON codecs

A codec writes a value as compact JSON text and reads it back from the front of a text.  Its law is a
field, so codecs are put together without proving anything about texts again.  The text of a number ends only
where no digit follows, hence the condition `Ends` on what stands behind a value.  Control characters are
not escaped.

* `Codec.nat`, `Codec.int`, `Codec.bool`, `Codec.string`, `Codec.enum`: the leaves;
* `Codec.many`, `Codec.option`, `Codec.seq`, `Codec.wrap`, `Codec.either`: arrays, `null`, fields and objects;
* `Codec.fromSlice_toVec`: the bytes of a value give the value.
-/

namespace RustQueue.Lib.Json

variable {α β : Type}

/-- No digit comes first. -/
def Ends (rest : List Char) : Prop := rest.head?.all (fun c => !c.isDigit) = true

structure Codec (α : Type) where
  write : α → List Char
  read : List Char → Option (α × List Char)
  read_write : ∀ value rest, Ends rest → read (write value ++ rest) = some (value, rest)

/-- Reads a fixed text. -/
def expect : List Char → List Char → Option (List Char)
  | [], text => some text
  | _ :: _, [] => none
  | c :: literal, d :: text => if c = d then expect literal text else none

theorem expect_append (literal rest : List Char) : expect literal (literal ++ rest) = some rest := by
  induction literal with
  | nil => rfl
  | cons c literal ih =>
    show (if c = c then expect literal (literal ++ rest) else none) = some rest
    rw [if_pos rfl, ih]

namespace Codec

/-! ### Numbers -/

def nat : Codec ℕ where
  write n := Nat.toDigits 10 n
  read text :=
    if (text.takeWhile Char.isDigit).isEmpty then none
    else some (Nat.ofDigitChars 10 (text.takeWhile Char.isDigit) 0, text.dropWhile Char.isDigit)
  read_write n rest hrest := by
    have hdigits : ∀ c ∈ Nat.toDigits 10 n, c.isDigit = true := fun c hc =>
      Nat.isDigit_of_mem_toDigits (by decide) le_rfl hc
    have hfirst : rest.takeWhile Char.isDigit = [] ∧ rest.dropWhile Char.isDigit = rest := by
      cases rest with
      | nil => exact ⟨rfl, rfl⟩
      | cons c rest =>
        have hc : c.isDigit = false := by simpa [Ends] using hrest
        exact ⟨List.takeWhile_cons_of_neg (by simp [hc]), List.dropWhile_cons_of_neg (by simp [hc])⟩
    rw [List.takeWhile_append_of_pos hdigits, List.dropWhile_append_of_pos hdigits, hfirst.1, hfirst.2,
      List.append_nil, if_neg (by simp [Nat.toDigits_ne_nil]), Nat.ofDigitChars_ten_toDigits]

/-- The text of a value that is a text of a value already. -/
def map (c : Codec α) (make : α → β) (take : β → α) (h : ∀ b, make (take b) = b) : Codec β where
  write b := c.write (take b)
  read text := (c.read text).map fun result => (make result.1, result.2)
  read_write b rest hrest := by
    rw [c.read_write _ _ hrest]
    show some (make (take b), rest) = some (b, rest)
    rw [h]

/-- A value between two fixed texts. -/
def wrap (before : String) (c : Codec α) (after : String) (h : ∀ rest, Ends (after.toList ++ rest)) :
    Codec α where
  write value := before.toList ++ (c.write value ++ after.toList)
  read text := do
    let text ← expect before.toList text
    let (value, text) ← c.read text
    return (value, ← expect after.toList text)
  read_write value rest _ := by
    rw [List.append_assoc, List.append_assoc, expect_append]
    show (c.read _).bind _ = _
    rw [c.read_write _ _ (h rest)]
    show (expect after.toList (after.toList ++ rest)).bind _ = _
    rw [expect_append]
    rfl

/-- Two values with a fixed text between them. -/
def seq (a : Codec α) (between : String) (b : Codec β) (h : ∀ rest, Ends (between.toList ++ rest)) :
    Codec (α × β) where
  write value := a.write value.1 ++ (between.toList ++ b.write value.2)
  read text := do
    let (first, text) ← a.read text
    let text ← expect between.toList text
    let (second, text) ← b.read text
    return ((first, second), text)
  read_write value rest hrest := by
    rw [List.append_assoc, List.append_assoc]
    show (a.read _).bind _ = _
    rw [a.read_write _ _ (h _)]
    show (expect between.toList (between.toList ++ (b.write value.2 ++ rest))).bind _ = _
    rw [expect_append]
    show (b.read _).bind _ = _
    rw [b.read_write _ _ hrest]
    rfl

/-- One of two kinds of values.  The first reader refuses the texts of the second. -/
def either (a : Codec α) (b : Codec β) (h : ∀ value rest, a.read (b.write value ++ rest) = none) :
    Codec (α ⊕ β) where
  write
    | .inl value => a.write value
    | .inr value => b.write value
  read text :=
    match a.read text with
    | some (value, rest) => some (.inl value, rest)
    | none => (b.read text).map fun result => (.inr result.1, result.2)
  read_write value rest hrest := by
    cases value with
    | inl value =>
      dsimp only
      rw [a.read_write _ _ hrest]
    | inr value =>
      dsimp only
      rw [h, b.read_write _ _ hrest]
      rfl

/-- The only value, written as a fixed text. -/
def literal (text : String) : Codec Unit where
  write _ := text.toList
  read input := (expect text.toList input).map fun rest => ((), rest)
  read_write _ rest _ := by
    rw [expect_append]
    rfl

/-- One more element of a tuple. -/
def element (a : Codec α) (b : Codec β) : Codec (α × β) := a.seq "," b fun _ => rfl

def option (c : Codec α) (h : ∀ rest, c.read ("null".toList ++ rest) = none) : Codec (Option α) :=
  (c.either (literal "null") fun _ rest => h rest).map (Sum.elim some fun _ => none)
    (fun value => value.elim (.inr ()) .inl) fun value => by cases value <;> rfl

def optionNat : Codec (Option ℕ) := option nat fun _ => rfl

def bool : Codec Bool :=
  ((literal "true").either (literal "false") fun _ _ => rfl).map (Sum.elim (fun _ => true) fun _ => false)
    (fun value => if value then .inl () else .inr ()) fun value => by cases value <;> rfl

def int : Codec ℤ :=
  (nat.either ⟨fun n => '-' :: nat.write n, fun
      | '-' :: text => nat.read text
      | _ => none, nat.read_write⟩ fun _ _ => rfl).map
    (Sum.elim (fun n => (n : ℤ)) fun n => -(n : ℤ))
    (fun value => if 0 ≤ value then .inl value.toNat else .inr (-value).toNat) fun value => by
      split_ifs with h
      · exact Int.toNat_of_nonneg h
      · show -((-value).toNat : ℤ) = value
        omega

/-! ### Sequences -/

/-- The values behind the first one, and the closing character. -/
def writeMore (c : Codec α) (closing : Char) (values : List α) : List Char :=
  values.flatMap (fun value => ',' :: c.write value) ++ [closing]

def readMore (c : Codec α) (closing : Char) : ℕ → List Char → Option (List α × List Char)
  | 0, _ => none
  | fuel + 1, ',' :: text => do
    let (value, text) ← c.read text
    let (values, text) ← readMore c closing fuel text
    return (value :: values, text)
  | _ + 1, text => (expect [closing] text).map fun rest => ([], rest)

theorem ends_writeMore (c : Codec α) {closing : Char} (hclosing : closing.isDigit = false)
    (values : List α) (rest : List Char) : Ends (c.writeMore closing values ++ rest) := by
  cases values with
  | nil => simp [Ends, writeMore, hclosing]
  | cons value values => rfl

theorem readMore_writeMore (c : Codec α) {closing : Char} (hclosing : closing.isDigit = false)
    (hcomma : closing ≠ ',') (values : List α) (rest : List Char) {fuel : ℕ}
    (hfuel : values.length < fuel) :
    c.readMore closing fuel (c.writeMore closing values ++ rest) = some (values, rest) := by
  induction values generalizing fuel with
  | nil =>
    obtain ⟨fuel, rfl⟩ := Nat.exists_eq_add_of_lt hfuel
    show c.readMore closing _ (closing :: rest) = _
    rw [readMore]
    · exact congrArg (Option.map _) (expect_append [closing] rest)
    · rintro text ⟨⟩
      exact hcomma rfl
  | cons value values ih =>
    obtain ⟨fuel, rfl⟩ := Nat.exists_eq_succ_of_ne_zero (Nat.ne_zero_of_lt hfuel)
    have htext : c.writeMore closing (value :: values) ++ rest =
        ',' :: (c.write value ++ (c.writeMore closing values ++ rest)) := by
      simp [writeMore]
    rw [htext, readMore, c.read_write _ _ (c.ends_writeMore hclosing values rest)]
    show (c.readMore closing fuel _).bind _ = _
    rw [ih (Nat.lt_of_succ_lt_succ hfuel)]
    rfl

theorem length_le_writeMore (c : Codec α) (closing : Char) (values : List α) :
    values.length < (c.writeMore closing values).length := by
  rw [writeMore, List.length_append, List.length_flatMap, List.length_singleton, Nat.lt_succ_iff]
  refine List.length_le_sum_of_one_le _ ?_ |>.trans' (by simp)
  simp

/-- Values between two characters, with commas.  The reader of a value refuses the closing character. -/
def many (opening : Char) (c : Codec α) (closing : Char)
    (hclosing : closing.isDigit = false ∧ closing ≠ ',')
    (h : ∀ rest, c.read (closing :: rest) = none) : Codec (List α) where
  write
    | [] => [opening, closing]
    | value :: values => opening :: (c.write value ++ c.writeMore closing values)
  read text := do
    let text ← expect [opening] text
    match c.read text with
    | none => (expect [closing] text).map fun rest => ([], rest)
    | some (value, text) => do
      let (values, text) ← c.readMore closing text.length text
      return (value :: values, text)
  read_write values rest _ := by
    cases values with
    | nil =>
      show (expect [opening] ([opening] ++ closing :: rest)).bind _ = _
      rw [expect_append, Option.bind_some, h]
      exact congrArg (Option.map _) (expect_append [closing] rest)
    | cons value values =>
      show (expect [opening] ([opening] ++ (c.write value ++ c.writeMore closing values ++ rest))).bind _ = _
      rw [expect_append, List.append_assoc, Option.bind_some,
        c.read_write _ _ (c.ends_writeMore hclosing.1 values rest)]
      show (c.readMore closing _ _).bind _ = _
      rw [c.readMore_writeMore hclosing.1 hclosing.2 values rest]
      · rfl
      · rw [List.length_append]
        exact Nat.lt_add_right _ (c.length_le_writeMore closing values)

def array (c : Codec α) (h : ∀ rest, c.read (']' :: rest) = none) : Codec (List α) :=
  many '[' c ']' (by decide) h

/-! ### Texts -/

/-- A character of a text: a quote or a backslash is escaped. -/
def escape (c : Char) : List Char := if c = '"' ∨ c = '\\' then ['\\', c] else [c]

/-- Reads up to the closing quote. -/
def readQuoted : List Char → Option (List Char × List Char)
  | [] => none
  | '"' :: rest => some ([], rest)
  | '\\' :: c :: rest | c :: rest => (readQuoted rest).map fun result => (c :: result.1, result.2)

theorem readQuoted_escape (c : Char) (rest : List Char) :
    readQuoted (escape c ++ rest) = (readQuoted rest).map fun result => (c :: result.1, result.2) := by
  unfold escape
  split_ifs with hspecial
  · rfl
  · obtain ⟨hquote, hbackslash⟩ := not_or.1 hspecial
    show readQuoted (c :: rest) = _
    rw [readQuoted]
    · exact hquote
    · rintro _ _ rfl
      exact absurd rfl hbackslash

def string : Codec String where
  write text := '"' :: (text.toList.flatMap escape ++ ['"'])
  read text := do
    let text ← expect ['"'] text
    let (content, rest) ← readQuoted text
    return (String.ofList content, rest)
  read_write text rest _ := by
    have hread : ∀ content : List Char,
        readQuoted (content.flatMap escape ++ '"' :: rest) = some (content, rest) := by
      intro content
      induction content with
      | nil => rfl
      | cons c content ih => rw [List.flatMap_cons, List.append_assoc, readQuoted_escape, ih]; rfl
    show (readQuoted (text.toList.flatMap escape ++ ['"'] ++ rest)).bind _ = _
    rw [List.append_assoc]
    show (readQuoted (text.toList.flatMap escape ++ '"' :: rest)).bind _ = _
    rw [hread]
    show some (String.ofList text.toList, rest) = _
    rw [String.ofList_toList]

/-- Values with names of their own. -/
def enum (name : α → String) (all : List α) (h : ∀ a, all.find? (fun b => name b = name a) = some a) :
    Codec α where
  write a := string.write (name a)
  read text := do
    let (found, rest) ← string.read text
    let a ← all.find? fun b => name b = found
    return (a, rest)
  read_write a rest hrest := by
    show (string.read _).bind _ = _
    rw [string.read_write _ _ hrest]
    show (all.find? _).bind _ = _
    rw [h]
    rfl

/-- A value as a text within the text. -/
def embedded (c : Codec α) : Codec α where
  write value := string.write (String.ofList (c.write value))
  read text := do
    let (inner, rest) ← string.read text
    let (value, []) ← c.read inner.toList | none
    return (value, rest)
  read_write value rest hrest := by
    show (string.read _).bind _ = _
    rw [string.read_write _ _ hrest, Option.bind_some]
    have hread := c.read_write value [] rfl
    rw [List.append_nil] at hread
    show (c.read (String.ofList (c.write value)).toList).bind _ = _
    rw [String.toList_ofList, hread]
    rfl

/-! ### Objects -/

/-- A member of an object. -/
def field (name : String) (c : Codec α) : Codec α where
  write value := string.write name ++ ':' :: c.write value
  read text := do
    let text ← expect (string.write name ++ [':']) text
    c.read text
  read_write value rest hrest := by
    have htext : string.write name ++ ':' :: c.write value ++ rest =
        (string.write name ++ [':']) ++ (c.write value ++ rest) := by simp
    rw [htext, expect_append]
    exact c.read_write value rest hrest

/-- One more member. -/
def also (a : Codec α) (name : String) (c : Codec β) : Codec (α × β) :=
  a.element (field name c)

def object (c : Codec α) : Codec α := c.wrap "\x7b" "\x7d" fun _ => rfl

/-- A map as an object, its keys in order. -/
def tree {κ : Type} [Ord κ] [Std.TransOrd κ] [Std.LawfulEqOrd κ] [DecidableEq κ] (key : Codec κ)
    (c : Codec α) (h : ∀ rest, key.read ('\x7d' :: rest) = none) : Codec (Std.ExtTreeMap κ α) :=
  (many '\x7b' (key.seq ":" c fun _ => rfl) '\x7d' (by decide) fun rest => by
    show (key.read _).bind _ = _
    rw [h]
    rfl).map (fun entries => entries.foldl (fun m entry => m.insert entry.1 entry.2) ∅)
      Std.ExtTreeMap.toList fun _ => foldl_insert_toList

/-- A set as an array, its elements in order. -/
def finset : Codec (Finset ℕ) :=
  (array nat fun _ => rfl).map List.toFinset (fun s => s.sort (· ≤ ·)) fun s => s.sort_toFinset _

/-- A number as a key. -/
def natKey : Codec ℕ := nat.wrap "\"" "\"" fun _ => rfl

/-! ### Bytes -/

def toVec (c : Codec α) (value : α) : List UInt8 := utf8 (String.ofList (c.write value))

def fromSlice {ε : Type} (c : Codec α) (e : ε) (bytes : List UInt8) : Except ε α :=
  match (ofUtf8 bytes).bind fun text => c.read text.toList with
  | some (value, []) => .ok value
  | _ => .error e

/-- **What was written is read back.** -/
theorem fromSlice_toVec {ε : Type} (c : Codec α) (e : ε) (value : α) :
    c.fromSlice e (c.toVec value) = .ok value := by
  have hread := c.read_write value [] rfl
  rw [List.append_nil] at hread
  rw [fromSlice, toVec, ofUtf8_utf8, Option.bind_some, String.toList_ofList, hread]

end Codec

end RustQueue.Lib.Json
