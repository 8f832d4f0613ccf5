import Mathlib.Tactic

/-!
# Topic and channel names

A name has at most 64 bytes and consists of ASCII letters, digits, `.`, `_` and `-`, with an
optional suffix `#ephemeral`.

* `validateName_of_plain`: a short name of accepted characters is valid;
* `eq_ephemeral_of_validateName`: in a valid name a `#` starts the suffix.
-/

namespace RustQueue

inductive NameError where
  | length
  | character
  deriving DecidableEq, Repr

/-- The suffix that marks an ephemeral name. -/
def ephemeralSuffix : String := "#ephemeral"

def isEphemeral (name : String) : Bool := ephemeralSuffix.toList.isSuffixOf name.toList

def nameCharacter (c : Char) : Bool := c.isAlphanum || c == '.' || c == '_' || c == '-'

/-- The characters of a name without its ephemeral suffix. -/
def baseName (name : String) : List Char :=
  if ephemeralSuffix.toList.isSuffixOf name.toList then
    name.toList.take (name.toList.length - ephemeralSuffix.toList.length)
  else name.toList

/-- Every accepted character is one byte, so that a name is checked by its characters. -/
def validateName (name : String) : Except NameError Unit :=
  if baseName name = [] ∨ 64 < name.utf8ByteSize then .error .length
  else if (baseName name).all nameCharacter then .ok ()
  else .error .character

/-! ### Accepted names -/

variable {name : String}

theorem validateName_eq_ok_iff :
    validateName name = .ok () ↔
      baseName name ≠ [] ∧ name.utf8ByteSize ≤ 64 ∧ ∀ c ∈ baseName name, nameCharacter c = true := by
  unfold validateName
  split_ifs with hlength hcharacters
  · refine iff_of_false (by simp) ?_
    rintro ⟨hbase, hsize, -⟩
    exact hlength.elim hbase fun hlong => absurd hsize (not_le.2 hlong)
  · rw [not_or, not_lt] at hlength
    exact iff_of_true rfl ⟨hlength.1, hlength.2, List.all_eq_true.1 hcharacters⟩
  · refine iff_of_false (by simp) ?_
    rintro ⟨-, -, hall⟩
    exact hcharacters (List.all_eq_true.2 hall)

theorem nameCharacter_ascii {c : Char} (h : nameCharacter c = true) : c.toNat < 128 := by
  unfold nameCharacter Char.isAlphanum Char.isAlpha Char.isUpper Char.isLower Char.isDigit at h
  simp only [Bool.or_eq_true, Bool.and_eq_true, decide_eq_true_eq, beq_iff_eq] at h
  rcases h with (((((h | h) | h) | rfl) | rfl) | rfl)
  · have hlast : c.toNat ≤ 90 := h.2
    omega
  · have hlast : c.toNat ≤ 122 := h.2
    omega
  · have hlast : c.toNat ≤ 57 := h.2
    omega
  all_goals decide

theorem isEphemeral_iff : isEphemeral name = true ↔ ephemeralSuffix.toList <:+ name.toList :=
  List.isSuffixOf_iff_suffix

theorem toList_of_isEphemeral (h : isEphemeral name = true) :
    name.toList = baseName name ++ ephemeralSuffix.toList := by
  obtain ⟨base, hbase⟩ := isEphemeral_iff.1 h
  have hlength : name.toList.length - ephemeralSuffix.toList.length = base.length := by
    rw [← hbase, List.length_append]
    omega
  have hcut : baseName name = base := by
    unfold baseName
    rw [if_pos (show ephemeralSuffix.toList.isSuffixOf name.toList = true from h), hlength, ← hbase,
      List.take_left' rfl]
  rw [hcut, hbase]

theorem baseName_of_not_isEphemeral (h : isEphemeral name = false) : baseName name = name.toList := by
  rw [baseName, if_neg]
  exact fun hsuffix => Bool.noConfusion (h.symm.trans hsuffix)

theorem not_isEphemeral_of_notMem (h : '#' ∉ name.toList) : isEphemeral name = false := by
  by_contra hephemeral
  rw [Bool.not_eq_false, isEphemeral_iff] at hephemeral
  exact h (hephemeral.subset (by decide))

theorem validateName_of_plain (hempty : name.toList ≠ []) (hsize : name.utf8ByteSize ≤ 64)
    (hall : ∀ c ∈ name.toList, nameCharacter c = true) : validateName name = .ok () := by
  have hplain : isEphemeral name = false :=
    not_isEphemeral_of_notMem fun hhash => Bool.noConfusion (hall '#' hhash)
  rw [validateName_eq_ok_iff, baseName_of_not_isEphemeral hplain]
  exact ⟨hempty, hsize, hall⟩

theorem eq_ephemeral_of_validateName {front back : List Char}
    (hname : name.toList = front ++ '#' :: back) (hvalid : validateName name = .ok ()) :
    back = "ephemeral".toList := by
  obtain ⟨-, -, hall⟩ := validateName_eq_ok_iff.1 hvalid
  have hbase : '#' ∉ baseName name := fun hhash => Bool.noConfusion (hall '#' hhash)
  cases hephemeral : isEphemeral name with
  | false =>
    rw [baseName_of_not_isEphemeral hephemeral, hname] at hbase
    exact absurd (List.mem_append_right _ List.mem_cons_self) hbase
  | true =>
    have hsplit : baseName name ++ '#' :: "ephemeral".toList = front ++ '#' :: back :=
      (toList_of_isEphemeral hephemeral).symm.trans hname
    exact ((List.append_cons_inj_of_notMem hbase (by decide)).1 hsplit).2.2.symm

end RustQueue
