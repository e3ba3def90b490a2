import Mathlib.Data.List.Basic
import Mathlib.Tactic.MkIffOfInductiveProp

/-! The bytes of a text, and the parts of it between two byte positions. A byte that reads as an ASCII character
is one, because all bytes of any other character are 128 or more. -/
namespace LadderLogic.Text

/-- The bytes of characters in UTF-8. -/
def encode (cs : List Char) : List UInt8 :=
  cs.flatMap String.utf8EncodeChar

/-- How many bytes characters have in UTF-8. -/
def width (cs : List Char) : Nat :=
  (encode cs).length

/-- The bytes of a text in UTF-8. -/
def bytes (s : String) : List UInt8 :=
  s.toUTF8.data.toList

@[simp] theorem encode_nil : encode [] = [] := rfl

@[simp] theorem encode_cons (c : Char) (cs : List Char) :
    encode (c :: cs) = String.utf8EncodeChar c ++ encode cs := rfl

@[simp] theorem encode_append (a b : List Char) : encode (a ++ b) = encode a ++ encode b :=
  List.flatMap_append

@[simp] theorem length_encode (cs : List Char) : (encode cs).length = width cs := rfl

@[simp] theorem width_nil : width [] = 0 := rfl

@[simp] theorem width_cons (c : Char) (cs : List Char) : width (c :: cs) = c.utf8Size + width cs := by
  rw [width, encode_cons, List.length_append, String.length_utf8EncodeChar, length_encode]

@[simp] theorem width_append (a b : List Char) : width (a ++ b) = width a + width b := by
  rw [width, encode_append, List.length_append, length_encode, length_encode]

theorem toByteArray_ofList (cs : List Char) : (String.ofList cs).toByteArray = (encode cs).toByteArray :=
  String.toByteArray_ofList

@[simp] theorem bytes_ofList (cs : List Char) : bytes (String.ofList cs) = encode cs := by
  rw [bytes, String.toUTF8_eq_toByteArray, toByteArray_ofList, List.data_toByteArray]

theorem bytes_eq (s : String) : bytes s = encode s.toList := by
  rw [← bytes_ofList, String.ofList_toList]

@[simp] theorem utf8ByteSize_ofList (cs : List Char) : (String.ofList cs).utf8ByteSize = width cs := by
  rw [← String.size_toByteArray, toByteArray_ofList, List.size_toByteArray, length_encode]

theorem utf8ByteSize_eq (s : String) : s.utf8ByteSize = width s.toList := by
  rw [← utf8ByteSize_ofList, String.ofList_toList]

theorem utf8EncodeChar_ne_nil (c : Char) : String.utf8EncodeChar c ≠ [] :=
  List.length_pos_iff.1 (String.length_utf8EncodeChar c ▸ c.utf8Size_pos)

theorem utf8Size_of_utf8EncodeChar {c : Char} {b : UInt8} (h : String.utf8EncodeChar c = [b]) : c.utf8Size = 1 := by
  rw [← String.length_utf8EncodeChar, h, List.length_singleton]

theorem ofUInt8_toUInt8 {c : Char} (h : c.val ≤ 127) : Char.ofUInt8 c.val.toUInt8 = c := by
  have hval : c.val.toNat ≤ 127 := h
  have hcode : (Char.ofUInt8 c.val.toUInt8).val.toNat = c.val.toUInt8.toNat := UInt8.toNat_toUInt32 _
  refine Char.ext (UInt32.toNat_inj.1 ?_)
  rw [hcode, UInt32.toNat_toUInt8]
  omega

theorem le_toNat_or (a : UInt8) {b : UInt8} (h : 128 ≤ b.toNat) : 128 ≤ (a ||| b).toNat := by
  rw [UInt8.toNat_or]
  exact Nat.le_trans h Nat.right_le_or

/-- A character is one byte, or its bytes are no ASCII characters. -/
theorem utf8EncodeChar_cases (c : Char) :
    (∃ b : UInt8, String.utf8EncodeChar c = [b] ∧ Char.ofUInt8 b = c) ∨
      128 ≤ c.toNat ∧ ∀ b ∈ String.utf8EncodeChar c, 128 ≤ (Char.ofUInt8 b).toNat := by
  by_cases hone : c.utf8Size = 1
  · exact Or.inl ⟨_, String.utf8EncodeChar_eq_singleton hone, ofUInt8_toUInt8 (Char.utf8Size_eq_one_iff.1 hone)⟩
  · refine Or.inr ⟨Nat.lt_of_not_le fun hle => hone (Char.utf8Size_eq_one_iff.2 hle), ?_⟩
    rcases c.utf8Size_eq with h | h | h | h
    · exact absurd h hone
    · simp only [String.utf8EncodeChar_eq_cons_cons h, List.forall_mem_cons]
      exact ⟨le_toNat_or _ (by decide), le_toNat_or _ (by decide), by simp⟩
    · simp only [String.utf8EncodeChar_eq_cons_cons_cons h, List.forall_mem_cons]
      exact ⟨le_toNat_or _ (by decide), le_toNat_or _ (by decide), le_toNat_or _ (by decide), by simp⟩
    · simp only [String.utf8EncodeChar_eq_cons_cons_cons_cons h, List.forall_mem_cons]
      exact ⟨le_toNat_or _ (by decide), le_toNat_or _ (by decide), le_toNat_or _ (by decide),
        le_toNat_or _ (by decide), by simp⟩

theorem ne_of_le_toNat {c d : Char} (h : 128 ≤ c.toNat) (hd : d.toNat < 128) : c ≠ d := by
  rintro rfl
  omega

section

-- All characters of the kind `p` are ASCII characters.
variable {p : Char → Bool} (hp : ∀ c : Char, 128 ≤ c.toNat → p c = false) (cs : List Char)
include hp

/-- The first byte is of the kind if the first character is. -/
theorem any_head?_encode : (encode cs).head?.any (fun b => p (Char.ofUInt8 b)) = cs.head?.any p := by
  cases cs with
  | nil => rfl
  | cons c cs =>
    rcases utf8EncodeChar_cases c with ⟨b, hb, rfl⟩ | ⟨hc, hbytes⟩
    · rw [encode_cons, hb]
      rfl
    · obtain ⟨b, bs, hcode⟩ := List.exists_cons_of_ne_nil (utf8EncodeChar_ne_nil c)
      have hb := hbytes b (hcode ▸ List.mem_cons_self)
      rw [encode_cons, hcode, List.cons_append, List.head?_cons, List.head?_cons, Option.any_some, Option.any_some,
        hp _ hb, hp _ hc]

theorem dropWhile_encode : (encode cs).dropWhile (fun b => p (Char.ofUInt8 b)) = encode (cs.dropWhile p) := by
  induction cs with
  | nil => rfl
  | cons c cs ih =>
    rcases utf8EncodeChar_cases c with ⟨b, hb, rfl⟩ | ⟨hc, hbytes⟩
    · rw [encode_cons, hb, List.singleton_append, List.dropWhile_cons, List.dropWhile_cons]
      split
      · exact ih
      · rw [encode_cons, hb, List.singleton_append]
    · obtain ⟨b, bs, hcode⟩ := List.exists_cons_of_ne_nil (utf8EncodeChar_ne_nil c)
      have hb := hp _ (hbytes b (hcode ▸ List.mem_cons_self))
      rw [List.dropWhile_cons_of_neg (by simp [hp c hc]), encode_cons, hcode, List.cons_append,
        List.dropWhile_cons_of_neg (by simp [hb])]

theorem length_takeWhile_encode :
    ((encode cs).takeWhile (fun b => p (Char.ofUInt8 b))).length = width (cs.takeWhile p) := by
  have hbytes := congrArg List.length ((encode cs).takeWhile_append_dropWhile (p := fun b => p (Char.ofUInt8 b)))
  have hchars := congrArg width (cs.takeWhile_append_dropWhile (p := p))
  rw [List.length_append, dropWhile_encode hp, length_encode, length_encode] at hbytes
  rw [width_append] at hchars
  omega

end

/-- The part of a text from the byte at `start` up to the byte before `stop`. -/
structure Range where
  start : Nat
  stop : Nat
deriving DecidableEq

/-- A range lies within a text, and neither of its ends stands inside a character. -/
@[mk_iff]
structure Range.Fits (s : String) (r : Range) : Prop where
  start_le_stop : r.start ≤ r.stop
  stop_le_size : r.stop ≤ s.utf8ByteSize
  start_isValid : String.Pos.Raw.IsValid s ⟨r.start⟩
  stop_isValid : String.Pos.Raw.IsValid s ⟨r.stop⟩

instance (s : String) (r : Range) : Decidable (r.Fits s) :=
  decidable_of_iff _ (Range.fits_iff s r).symm

/-- The part of a text in a range. Nothing can be cut out at a range that does not fit. -/
def slice? (s : String) (r : Range) : Option String :=
  if h : r.Fits s then some (s.extract ⟨⟨r.start⟩, h.start_isValid⟩ ⟨⟨r.stop⟩, h.stop_isValid⟩) else none

theorem fits_of_slice? {s part : String} {r : Range} (h : slice? s r = some part) : r.Fits s := by
  rw [slice?] at h
  split at h
  · assumption
  · cases h

/-- The range of characters behind others. -/
theorem fits_ofList_append (a b c : List Char) :
    Range.Fits (String.ofList (a ++ (b ++ c))) ⟨width a, width a + width b⟩ where
  start_le_stop := Nat.le_add_right _ _
  stop_le_size := by simp only [utf8ByteSize_ofList, width_append]; omega
  start_isValid := String.Pos.Raw.isValid_iff_exists_append.2
    ⟨.ofList a, .ofList (b ++ c), String.ofList_append, String.Pos.Raw.ext (utf8ByteSize_ofList a).symm⟩
  stop_isValid := String.Pos.Raw.isValid_iff_exists_append.2
    ⟨.ofList (a ++ b), .ofList c, by rw [← String.ofList_append, List.append_assoc],
      String.Pos.Raw.ext (by simp [String.byteIdx_rawEndPos])⟩

theorem drop_encode_append (a b : List Char) : (encode (a ++ b)).drop (width a) = encode b := by
  rw [encode_append, ← length_encode a, List.drop_left]

theorem drop_take_encode_append (a b c : List Char) :
    ((encode (a ++ (b ++ c))).take (width a + width b)).drop (width a) = encode b := by
  rw [← width_append, ← List.append_assoc, encode_append, ← length_encode (a ++ b), List.take_left,
    drop_encode_append]

theorem extract_toByteArray_ofList_append (a b c : List Char) :
    (String.ofList (a ++ (b ++ c))).toByteArray.extract (width a) (width a + width b) =
      (String.ofList b).toByteArray := by
  have hsize : (String.ofList a).toByteArray.size = width a := utf8ByteSize_ofList a
  have hempty : (String.ofList a).toByteArray.extract (width a) (width a + width b) = ByteArray.empty := by
    rw [ByteArray.extract_eq_empty_iff, hsize]
    exact Nat.min_le_right _ _
  rw [String.ofList_append, String.ofList_append, String.toByteArray_append, String.toByteArray_append,
    ByteArray.extract_append, hempty, hsize, Nat.sub_self, Nat.add_sub_cancel_left, ByteArray.empty_append,
    ByteArray.extract_append_eq_left (utf8ByteSize_ofList b).symm]

theorem slice?_ofList_append (a b c : List Char) :
    slice? (String.ofList (a ++ (b ++ c))) ⟨width a, width a + width b⟩ = some (String.ofList b) := by
  rw [slice?, dif_pos (fits_ofList_append a b c)]
  exact congrArg some (String.toByteArray_inj.1
    (String.toByteArray_extract.trans (extract_toByteArray_ofList_append a b c)))

end LadderLogic.Text
