import HalConstants.Proofs.Text.Bytes
import Mathlib.Order.Bounds.Basic

/-!
# Searching a text

One text stands at a byte of another if its bytes are found from there on (`StandsAt`). No character starts within
the bytes of another one, so a text that is not empty stands only where a character starts (`standsAt_iff`), and
the search, which goes from character to character, finds the first of all places (`find?_eq_some_iff`).
-/

namespace HalConstants.Text

variable {needle cs : List Char} {c : Char} {n m : Nat} {s text : String}

/-- The bytes of `s` are those of `text` from byte `n` on. -/
def StandsAt (s text : String) (n : Nat) : Prop := bytes s <+: (bytes text).drop n

/-- The characters of `needle` are those of `cs` behind `n` bytes. -/
def OccursAt (needle cs : List Char) (n : Nat) : Prop :=
  ∃ before after, cs = before ++ (needle ++ after) ∧ byteLength before = n

/-! ## From character to character -/

theorem occursAt_nil_iff : OccursAt needle [] n ↔ needle = [] ∧ n = 0 := by
  constructor
  · rintro ⟨before, after, hcut, rfl⟩
    obtain ⟨rfl, hrest⟩ := List.append_eq_nil_iff.mp hcut.symm
    exact ⟨(List.append_eq_nil_iff.mp hrest).1, rfl⟩
  · rintro ⟨rfl, rfl⟩
    exact ⟨[], [], rfl, rfl⟩

/-- A text occurs at the first character, or behind it. -/
theorem occursAt_cons_iff : OccursAt needle (c :: cs) n ↔
    n = 0 ∧ needle <+: c :: cs ∨ ∃ m, n = m + c.utf8Size ∧ OccursAt needle cs m := by
  constructor
  · rintro ⟨before, after, hcut, rfl⟩
    cases before with
    | nil => exact .inl ⟨rfl, after, hcut.symm⟩
    | cons d before =>
        obtain ⟨rfl, hrest⟩ := List.cons.inj hcut
        exact .inr ⟨byteLength before, Nat.add_comm _ _, before, after, hrest, rfl⟩
  · rintro (⟨rfl, after, hcut⟩ | ⟨m, rfl, before, after, rfl, rfl⟩)
    · exact ⟨[], after, hcut.symm, rfl⟩
    · exact ⟨c :: before, after, rfl, Nat.add_comm _ _⟩

/-- **The search finds the first occurrence**, if there is one. -/
theorem find?_first (needle cs : List Char) :
    match find? needle cs with
    | some n => IsLeast {n | OccursAt needle cs n} n
    | none => ∀ n, ¬ OccursAt needle cs n := by
  induction cs with
  | nil =>
      rw [find?]
      by_cases hneedle : needle = []
      · rw [if_pos (List.isEmpty_iff.mpr hneedle)]
        exact ⟨occursAt_nil_iff.mpr ⟨hneedle, rfl⟩, fun n _ => Nat.zero_le n⟩
      · rw [if_neg (mt List.isEmpty_iff.mp hneedle)]
        exact fun n h => hneedle (occursAt_nil_iff.mp h).1
  | cons c cs ih =>
      rw [find?]
      by_cases hprefix : needle <+: c :: cs
      · rw [if_pos (List.isPrefixOf_iff_prefix.mpr hprefix)]
        exact ⟨occursAt_cons_iff.mpr (.inl ⟨rfl, hprefix⟩), fun n _ => Nat.zero_le n⟩
      · rw [if_neg (mt List.isPrefixOf_iff_prefix.mp hprefix)]
        -- an occurrence stands behind the first character
        have hbehind : ∀ n, OccursAt needle (c :: cs) n ↔ ∃ m, n = m + c.utf8Size ∧ OccursAt needle cs m := by
          intro n
          rw [occursAt_cons_iff, or_iff_right (fun h => hprefix h.2)]
        cases hfind : find? needle cs with
        | none =>
            rw [hfind] at ih
            intro n h
            obtain ⟨m, -, hm⟩ := (hbehind n).mp h
            exact ih m hm
        | some m =>
            rw [hfind] at ih
            refine ⟨(hbehind _).mpr ⟨m, rfl, ih.1⟩, ?_⟩
            intro n h
            obtain ⟨k, rfl, hk⟩ := (hbehind n).mp h
            exact Nat.add_le_add_right (ih.2 hk) c.utf8Size

/-! ## From byte to byte -/

/-- A text whose bytes start with those of another one starts with that one. -/
theorem toList_prefix_of_bytes_prefix (h : bytes s <+: bytes text) : s.toList <+: text.toList := by
  obtain ⟨rest, hrest⟩ := h
  have hbytes : s.toByteArray ++ ⟨⟨rest⟩⟩ = text.toByteArray := by
    apply ByteArray.ext
    apply Array.toList_inj.mp
    rw [ByteArray.data_append, Array.toList_append]
    exact hrest
  rw [← String.utf8Encode_toList, ← String.utf8Encode_toList] at hbytes
  exact List.isPrefix_of_utf8Encode_append_eq_utf8Encode _ hbytes

theorem utf8ByteSize_pos (hs : s ≠ "") : 0 < s.utf8ByteSize :=
  Nat.pos_of_ne_zero (mt String.utf8ByteSize_eq_zero_iff.mp hs)

theorem StandsAt.le (h : StandsAt s text n) (hs : s ≠ "") : n + s.utf8ByteSize ≤ text.utf8ByteSize := by
  have hlength := h.length_le
  have hpos := utf8ByteSize_pos hs
  rw [List.length_drop, length_bytes, length_bytes] at hlength
  omega

/-- A text that is not empty stands where a character starts. -/
theorem StandsAt.exists_append (h : StandsAt s text n) (hs : s ≠ "") :
    ∃ front rest : String, text = front ++ rest ∧ front.utf8ByteSize = n := by
  have hle := h.le hs
  have hpos := utf8ByteSize_pos hs
  have hextract : text.toByteArray.extract n (n + s.utf8ByteSize) = s.toByteArray := by
    apply ByteArray.ext
    apply Array.toList_inj.mp
    have htake := List.prefix_iff_eq_take.mp h
    rw [length_bytes] at htake
    rw [ByteArray.data_extract, Array.toList_extract, List.extract_eq_take_drop, Nat.add_sub_cancel_left]
    exact htake.symm
  have hvalid : (text.toByteArray.extract n (n + s.utf8ByteSize)).IsValidUTF8 := hextract ▸ s.isValidUTF8
  rcases (String.Pos.Raw.isValidUTF8_extract_iff ⟨n⟩ ⟨n + s.utf8ByteSize⟩ (Nat.le_add_right _ _) hle).mp hvalid with
    heq | ⟨hstart, -⟩
  · have hsize := congrArg String.Pos.Raw.byteIdx heq
    simp only at hsize
    omega
  · obtain ⟨front, rest, rfl, hfront⟩ := String.Pos.Raw.isValid_iff_exists_append.mp hstart
    exact ⟨front, rest, rfl, (congrArg String.Pos.Raw.byteIdx hfront).symm⟩

/-- **Bytes are found where characters are.** -/
theorem standsAt_iff (hs : s ≠ "") : StandsAt s text n ↔ OccursAt s.toList text.toList n := by
  constructor
  · intro h
    obtain ⟨front, rest, rfl, rfl⟩ := h.exists_append hs
    rw [StandsAt, bytes_append, ← length_bytes, List.drop_left] at h
    obtain ⟨after, hafter⟩ := toList_prefix_of_bytes_prefix h
    exact ⟨front.toList, after, by rw [String.toList_append, hafter], byteLength_toList front⟩
  · rintro ⟨before, after, hcut, rfl⟩
    have htext : text = String.ofList before ++ (s ++ String.ofList after) := by
      rw [← String.toList_inj, hcut]
      simp
    have hlength : byteLength before = (bytes (String.ofList before)).length := by
      rw [length_bytes, ← byteLength_toList, String.toList_ofList]
    rw [StandsAt, htext, bytes_append, bytes_append, hlength, List.drop_left]
    exact List.prefix_append _ _

theorem find?_eq_some_iff (hs : s ≠ "") :
    find? s.toList text.toList = some n ↔ IsLeast {n | StandsAt s text n} n := by
  have hfirst := find?_first s.toList text.toList
  simp only [standsAt_iff hs]
  cases hfind : find? s.toList text.toList with
  | none =>
      rw [hfind] at hfirst
      exact ⟨fun h => by contradiction, fun h => absurd h.1 (hfirst n)⟩
  | some m =>
      rw [hfind] at hfirst
      constructor
      · intro h
        exact Option.some.inj h ▸ hfirst
      · exact fun h => congrArg some (hfirst.unique h)

theorem find?_eq_none_iff (hs : s ≠ "") : find? s.toList text.toList = none ↔ ∀ n, ¬ StandsAt s text n := by
  have hfirst := find?_first s.toList text.toList
  simp only [standsAt_iff hs]
  cases hfind : find? s.toList text.toList with
  | none =>
      rw [hfind] at hfirst
      exact ⟨fun _ => hfirst, fun _ => rfl⟩
  | some m =>
      rw [hfind] at hfirst
      exact ⟨fun h => by contradiction, fun h => absurd hfirst.1 (h m)⟩

end HalConstants.Text
