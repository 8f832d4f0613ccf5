import Mathlib.Tactic

/-!
# Texts and their bytes

A text as the bytes of its UTF-8 encoding, and back.

* `ofUtf8_utf8`: the bytes of a text decode to the text;
* `utf8_of_ofUtf8`: only the bytes of a text decode to it;
* `ofUtf8_utf8_append`, `ofUtf8_append_utf8`: a text can be cut off at either end before decoding;
* `utf8_ascii`, `ofUtf8_ascii`: an ASCII text has one byte for each of its characters.
-/

namespace RustQueue.Lib

variable (text : String)

/-- The bytes of a text. -/
def utf8 : List UInt8 := text.toByteArray.data.toList

/-- The text that some bytes encode, if they are valid UTF-8. -/
def ofUtf8 (bytes : List UInt8) : Option String := String.fromUTF8? ⟨bytes.toArray⟩

theorem ofUtf8_utf8 : ofUtf8 (utf8 text) = some text := by
  rw [ofUtf8, utf8, Array.toArray_toList, String.fromUTF8?, dif_pos text.isValidUTF8]
  rfl

theorem utf8_of_ofUtf8 {bytes : List UInt8} {text : String} (h : ofUtf8 bytes = some text) :
    utf8 text = bytes := by
  unfold ofUtf8 String.fromUTF8? at h
  split_ifs at h with hvalid
  cases h
  rfl

theorem length_utf8 : (utf8 text).length = text.utf8ByteSize := rfl

theorem utf8_append (s t : String) : utf8 (s ++ t) = utf8 s ++ utf8 t := by
  rw [utf8, utf8, utf8, String.toByteArray_append]
  simp

/-- Different texts have different bytes. -/
theorem utf8_injective : Function.Injective utf8 := by
  intro s t h
  have hs := ofUtf8_utf8 s
  rw [h, ofUtf8_utf8] at hs
  exact (Option.some.inj hs).symm

/-! ### Cutting a text -/

/-- A text is cut between two characters when its front is a text, and when its back is one. -/
theorem isValidUTF8_iff {a b : ByteArray} (hab : (a ++ b).IsValidUTF8) : a.IsValidUTF8 ↔ b.IsValidUTF8 := by
  have hsize : a.size ≤ (a ++ b).size := by
    rw [ByteArray.size_append]
    exact Nat.le_add_right _ _
  have hfront : String.Pos.Raw.IsValid ⟨a ++ b, hab⟩ ⟨a.size⟩ ↔ ((a ++ b).extract 0 a.size).IsValidUTF8 :=
    String.Pos.Raw.isValid_iff_isValidUTF8_extract_zero.trans (and_iff_right hsize)
  have hback : String.Pos.Raw.IsValid ⟨a ++ b, hab⟩ ⟨a.size⟩ ↔
      ((a ++ b).extract a.size (a ++ b).size).IsValidUTF8 :=
    String.Pos.Raw.isValid_iff_isValidUTF8_extract_utf8ByteSize.trans (and_iff_right hsize)
  rw [ByteArray.extract_append_eq_left rfl] at hfront
  rw [ByteArray.extract_append_eq_right rfl ByteArray.size_append] at hback
  exact hfront.symm.trans hback

theorem ofUtf8_eq_none {bytes : List UInt8} :
    ofUtf8 bytes = none ↔ ¬(ByteArray.mk bytes.toArray).IsValidUTF8 := by
  rw [ofUtf8, String.fromUTF8?]
  split_ifs with h <;> simp [h]

theorem mk_append (a b : List UInt8) :
    ByteArray.mk (a ++ b).toArray = ByteArray.mk a.toArray ++ ByteArray.mk b.toArray :=
  ByteArray.ext (by simp)

theorem mk_utf8 : ByteArray.mk (utf8 text).toArray = text.toByteArray :=
  ByteArray.ext (by simp [utf8])

theorem ofUtf8_utf8_append (front : String) (bytes : List UInt8) :
    ofUtf8 (utf8 front ++ bytes) = (ofUtf8 bytes).map (front ++ ·) := by
  cases h : ofUtf8 bytes with
  | some text => rw [← utf8_of_ofUtf8 h, ← utf8_append, ofUtf8_utf8, Option.map_some]
  | none =>
    rw [ofUtf8_eq_none] at h
    rw [Option.map_none, ofUtf8_eq_none, mk_append]
    exact fun hvalid => h ((isValidUTF8_iff hvalid).1 (by rw [mk_utf8]; exact front.isValidUTF8))

theorem ofUtf8_append_utf8 (bytes : List UInt8) (back : String) :
    ofUtf8 (bytes ++ utf8 back) = (ofUtf8 bytes).map (· ++ back) := by
  cases h : ofUtf8 bytes with
  | some text => rw [← utf8_of_ofUtf8 h, ← utf8_append, ofUtf8_utf8, Option.map_some]
  | none =>
    rw [ofUtf8_eq_none] at h
    rw [Option.map_none, ofUtf8_eq_none, mk_append]
    exact fun hvalid => h ((isValidUTF8_iff hvalid).2 (by rw [mk_utf8]; exact back.isValidUTF8))

/-! ### ASCII -/

/-- The byte of an ASCII character. -/
def asciiByte (c : Char) : UInt8 := UInt8.ofNat c.toNat

theorem utf8EncodeChar_ascii {c : Char} (h : c.toNat < 128) :
    String.utf8EncodeChar c = [asciiByte c] := by
  unfold String.utf8EncodeChar
  have hle : c.val.toNat ≤ 127 := Nat.le_of_lt_succ h
  simp only [hle, if_true]
  rfl

/-- The characters of a text are encoded one after the other. -/
theorem utf8_eq_flatMap : utf8 text = text.toList.flatMap String.utf8EncodeChar := by
  conv_lhs => rw [← @String.ofList_toList text, utf8, String.toByteArray_ofList, List.utf8Encode]
  simp

theorem flatMap_utf8EncodeChar_ascii {chars : List Char} (h : ∀ c ∈ chars, c.toNat < 128) :
    chars.flatMap String.utf8EncodeChar = chars.map asciiByte := by
  induction chars with
  | nil => rfl
  | cons c chars ih =>
    rw [List.flatMap_cons, utf8EncodeChar_ascii (h c List.mem_cons_self),
      ih fun d hd => h d (List.mem_cons_of_mem _ hd)]
    rfl

theorem utf8_ascii {chars : List Char} (h : ∀ c ∈ chars, c.toNat < 128) :
    utf8 (String.ofList chars) = chars.map asciiByte := by
  rw [utf8_eq_flatMap, String.toList_ofList, flatMap_utf8EncodeChar_ascii h]

/-- An ASCII character of a text is one of its bytes. -/
theorem asciiByte_mem_utf8 {text : String} {c : Char} (h : c ∈ text.toList) (hc : c.toNat < 128) :
    asciiByte c ∈ utf8 text := by
  rw [utf8_eq_flatMap]
  exact List.mem_flatMap.2 ⟨c, h, by rw [utf8EncodeChar_ascii hc]; exact List.mem_singleton_self _⟩

/-- The character with the number of a byte. -/
def byteChar (b : UInt8) : Char := Char.ofNat b.toNat

theorem toNat_byteChar (b : UInt8) : (byteChar b).toNat = b.toNat := by
  have hvalid : Nat.isValidChar b.toNat := by
    have := b.toNat_lt
    left
    omega
  rw [byteChar, Char.ofNat, dif_pos hvalid]
  rfl

theorem asciiByte_byteChar (b : UInt8) : asciiByte (byteChar b) = b := by
  rw [asciiByte, toNat_byteChar, UInt8.ofNat_toNat]

theorem byteChar_asciiByte {c : Char} (h : c.toNat < 128) : byteChar (asciiByte c) = c := by
  have hbyte : (asciiByte c).toNat = c.toNat := by
    rw [asciiByte, UInt8.toNat_ofNat', Nat.mod_eq_of_lt (h.trans (by decide))]
  rw [byteChar, hbyte, Char.ofNat_toNat]

/-- Bytes below 128 are a text, one character each. -/
theorem ofUtf8_ascii {bytes : List UInt8} (h : ∀ b ∈ bytes, b.toNat < 128) :
    ofUtf8 bytes = some (String.ofList (bytes.map byteChar)) := by
  have hchars : ∀ c ∈ bytes.map byteChar, c.toNat < 128 := by
    intro c hc
    obtain ⟨b, hb, rfl⟩ := List.mem_map.1 hc
    rw [toNat_byteChar]
    exact h b hb
  have hbytes : utf8 (String.ofList (bytes.map byteChar)) = bytes := by
    rw [utf8_ascii hchars, List.map_map, Function.comp_def]
    simp only [asciiByte_byteChar, List.map_id']
  rw [← ofUtf8_utf8, hbytes]

/-- The bytes of an ASCII text are its characters. -/
theorem toList_eq_map_byteChar {text : String} (h : ∀ c ∈ text.toList, c.toNat < 128) :
    text.toList = (utf8 text).map byteChar := by
  rw [utf8_eq_flatMap, flatMap_utf8EncodeChar_ascii h, List.map_map]
  conv_lhs => rw [← List.map_id text.toList]
  exact List.map_congr_left fun c hc => (byteChar_asciiByte (h c hc)).symm

/-- An ASCII text can be cut at any byte. -/
theorem ofUtf8_take {text : String} (h : ∀ c ∈ text.toList, c.toNat < 128) (n : ℕ) :
    ofUtf8 ((utf8 text).take n) = some (String.ofList (text.toList.take n)) := by
  have hcut : (utf8 text).take n = utf8 (String.ofList (text.toList.take n)) := by
    rw [utf8_ascii fun c hc => h c (List.mem_of_mem_take hc), utf8_eq_flatMap,
      flatMap_utf8EncodeChar_ascii h, List.map_take]
  rw [hcut, ofUtf8_utf8]

/-- The size of an ASCII text is the number of its characters. -/
theorem utf8ByteSize_ascii {text : String} (h : ∀ c ∈ text.toList, c.toNat < 128) :
    text.utf8ByteSize = text.toList.length := by
  rw [← length_utf8, utf8_eq_flatMap, flatMap_utf8EncodeChar_ascii h, List.length_map]

end RustQueue.Lib
