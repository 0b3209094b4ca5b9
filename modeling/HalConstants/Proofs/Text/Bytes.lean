import HalConstants.Text.Bytes

/-!
# Characters and bytes

A text has at least as many bytes as characters, and just as many if it is of ASCII characters. The bytes of texts
that are put together are those of the texts.
-/

namespace HalConstants.Text

/-- The bytes of a text in its UTF-8 form. -/
def bytes (s : String) : List UInt8 := s.toByteArray.data.toList

def IsAscii (s : String) : Prop := ∀ c ∈ s.toList, c.toNat < 128

instance : DecidablePred IsAscii := fun s => inferInstanceAs (Decidable (∀ c ∈ s.toList, c.toNat < 128))

theorem byteLength_toList (s : String) : byteLength s.toList = s.utf8ByteSize := by
  induction s using String.push_induction with
  | empty => rfl
  | push s c ih => simp [ih]

theorem length_bytes (s : String) : (bytes s).length = s.utf8ByteSize := by
  rw [bytes, Array.length_toList]
  rfl

theorem bytes_append (s t : String) : bytes (s ++ t) = bytes s ++ bytes t := by
  rw [bytes, String.toByteArray_append, ByteArray.data_append, Array.toList_append]
  rfl

theorem bytes_join (ss : List String) : bytes (String.join ss) = ss.flatMap bytes := by
  induction ss with
  | nil => rfl
  | cons s ss ih => rw [String.join_cons, bytes_append, ih, List.flatMap_cons]

theorem utf8Size_eq_one_iff {c : Char} : c.utf8Size = 1 ↔ c.toNat < 128 := by
  rw [Char.utf8Size_eq_one_iff, UInt32.le_iff_toNat_le, ← Nat.lt_succ_iff]
  rfl

theorem length_le_byteLength (cs : List Char) : cs.length ≤ byteLength cs := by
  induction cs with
  | nil => exact Nat.le_refl 0
  | cons c cs ih =>
      have hc := c.utf8Size_pos
      rw [List.length_cons, byteLength_cons]
      omega

theorem byteLength_eq_length_iff (cs : List Char) :
    byteLength cs = cs.length ↔ ∀ c ∈ cs, c.toNat < 128 := by
  induction cs with
  | nil => simp
  | cons c cs ih =>
      have hc := c.utf8Size_pos
      have hle := length_le_byteLength cs
      rw [List.forall_mem_cons, ← ih, ← utf8Size_eq_one_iff, byteLength_cons, List.length_cons]
      omega

theorem length_le_utf8ByteSize (s : String) : s.length ≤ s.utf8ByteSize := by
  rw [← byteLength_toList, ← String.length_toList]
  exact length_le_byteLength s.toList

theorem utf8ByteSize_eq_length_iff (s : String) : s.utf8ByteSize = s.length ↔ IsAscii s := by
  rw [← byteLength_toList, ← String.length_toList]
  exact byteLength_eq_length_iff s.toList

end HalConstants.Text
