import HalConstants.Proofs.Text.NumeralGrammar
import HalConstants.Target.PythonDocument

/-!
# Versions and their texts

A version is written as two numbers in decimal digits, of any length, with a point between them (`Writes`). The
form is that alone, and a version is read from it if both numbers have 32 bits. The text of a version is the one
without zeros in front of its numbers (`shortened`), and the names that are made of a version tell it apart
from every other (`texts_of_versions`).
-/

namespace HalConstants

/-! ## Digits and points -/

namespace Text

variable {c : Char} {d : Nat} {ds ds' cs : List Char}

theorem isDigit_of_isFigure (h : IsFigure 10 c d) : c.isDigit := by
  have hdigits : ∀ d < 10, (Nat.digitChar d).isDigit ∧ (Nat.digitChar d).toUpper.isDigit := by decide
  obtain ⟨hd, rfl | rfl⟩ := h
  · exact (hdigits d hd).1
  · exact (hdigits d hd).2

theorem isFigure_of_isDigit (h : c.isDigit) : IsFigure 10 c (c.toNat - 48) := by
  have hchars : ∀ n < 58, 48 ≤ n → Char.ofNat n = (n - 48).digitChar := by decide
  obtain ⟨hle, hlt⟩ : 48 ≤ c.toNat ∧ c.toNat ≤ 57 := by
    simpa [Char.isDigit, UInt32.le_iff_toNat_le] using h
  have hchar := hchars c.toNat (Nat.lt_succ_of_le hlt) hle
  rw [Char.ofNat_toNat] at hchar
  exact ⟨by omega, .inl hchar⟩

/-- Decimal digits write a number. -/
theorem exists_writesNat_iff : (∃ n, WritesNat 10 n ds) ↔ ds ≠ [] ∧ ∀ c ∈ ds, c.isDigit := by
  constructor
  · rintro ⟨n, hne, figures, hfigures, -⟩
    have hdigits : List.Forall₂ (fun c d => c.isDigit ∧ IsFigure 10 c d) ds figures :=
      hfigures.imp fun c d h => ⟨isDigit_of_isFigure h, h⟩
    exact ⟨hne, ((List.forall₂_and_left ds figures).mp hdigits).1⟩
  · rintro ⟨hne, hdigits⟩
    refine ⟨_, hne, ds.map fun c => c.toNat - 48, ?_, rfl⟩
    rw [List.forall₂_map_right_iff, List.forall₂_same]
    exact fun c hc => isFigure_of_isDigit (hdigits c hc)

theorem WritesNat.notMem {n : Nat} (h : WritesNat 10 n ds) (hc : ¬ c.isDigit) : c ∉ ds :=
  fun hmem => hc ((exists_writesNat_iff.mp ⟨n, h⟩).2 c hmem)

theorem splitOn_pair {sep : Char} (h : sep ∉ ds) (h' : sep ∉ ds') :
    (ds ++ sep :: ds').splitOn sep = [ds, ds'] := by
  have hjoined : [sep].intercalate [ds, ds'] = ds ++ sep :: ds' := by simp
  rw [← hjoined]
  apply List.splitOn_intercalate
  · simp [h, h']
  · exact List.cons_ne_nil _ _

theorem eq_of_splitOn_pair {sep : Char} (h : cs.splitOn sep = [ds, ds']) : cs = ds ++ sep :: ds' := by
  have hjoined : [sep].intercalate (cs.splitOn sep) = cs := List.intercalate_splitOn sep
  rw [h] at hjoined
  rw [← hjoined]
  simp

/-! ## Zeros in front -/

/-- Digits without the zeros in front of them. The last digit stays. -/
def dropZeros : List Char → List Char
  | '0' :: c :: cs => dropZeros (c :: cs)
  | cs => cs

theorem writesNat_toDigits (n : Nat) : WritesNat 10 n (Nat.toDigits 10 n) :=
  (readNat?_eq_some_iff (by decide)).mp (readNat?_toDigits (by decide) (by decide) n)

theorem toDigits_inj {n m : Nat} (h : Nat.toDigits 10 n = Nat.toDigits 10 m) : n = m := by
  have hvalue : Nat.ofDigitChars 10 (Nat.toDigits 10 n) 0 = Nat.ofDigitChars 10 (Nat.toDigits 10 m) 0 :=
    congrArg (Nat.ofDigitChars 10 · 0) h
  rwa [Nat.ofDigitChars_ten_toDigits, Nat.ofDigitChars_ten_toDigits] at hvalue

theorem exists_of_readDigits_cons {n m : Nat} (h : readDigits 10 n (c :: cs) = some m) :
    ∃ d, d < 10 ∧ c = d.digitChar ∧ readDigits 10 (10 * n + d) cs = some m := by
  have hupper : ∀ d < 10, d.digitChar.toUpper = d.digitChar := by decide
  rw [readDigits] at h
  split at h
  · next d hd =>
      split at h
      · next hlt =>
          have hfigure := (digitValue?_eq_some_iff.mp hd).2
          rw [hupper d hlt, or_self] at hfigure
          exact ⟨d, hlt, hfigure, h⟩
      · contradiction
  · contradiction

/-- Reading on behind a number that is not zero goes on with its digits. -/
theorem toDigits_append_of_readDigits {n m : Nat} (hn : 0 < n) (h : readDigits 10 n cs = some m) :
    Nat.toDigits 10 n ++ cs = Nat.toDigits 10 m := by
  induction cs generalizing n with
  | nil =>
      obtain rfl : n = m := Option.some.inj h
      exact List.append_nil _
  | cons c cs ih =>
      obtain ⟨d, hd, rfl, hmore⟩ := exists_of_readDigits_cons h
      have hnext : Nat.toDigits 10 n ++ [d.digitChar] = Nat.toDigits 10 (10 * n + d) := by
        rw [← Nat.toDigits_append_toDigits (by decide) hn hd, Nat.toDigits_of_lt_base hd]
      rw [← ih (by omega) hmore, ← hnext, List.append_assoc, List.singleton_append]

/-- **Without zeros in front, a number is written in one way only.** -/
theorem WritesNat.dropZeros_eq {n : Nat} (h : WritesNat 10 n ds) : dropZeros ds = Nat.toDigits 10 n := by
  have hne := h.1
  have hread := (readNat?_eq_some_iff (by decide)).mpr h
  rw [readNat?, if_neg (by simpa using hne)] at hread
  clear h
  fun_induction dropZeros ds with
  | case1 c cs ih => exact ih (List.cons_ne_nil c cs) hread
  | case2 ds hfirst =>
      obtain ⟨c, cs, rfl⟩ := List.exists_cons_of_ne_nil hne
      obtain ⟨d, hd, rfl, hmore⟩ := exists_of_readDigits_cons hread
      rw [Nat.mul_zero, Nat.zero_add] at hmore
      by_cases hzero : d = 0
      · -- a zero that stays is the only digit
        subst hzero
        cases cs with
        | nil =>
            obtain rfl : 0 = n := Option.some.inj hmore
            rfl
        | cons c cs => exact absurd rfl (hfirst c cs)
      · rw [← toDigits_append_of_readDigits (Nat.pos_of_ne_zero hzero) hmore, Nat.toDigits_of_lt_base hd,
          List.singleton_append]

end Text

/-! ## Versions -/

namespace HalVersion

open Text (WritesNat)

variable {cs : List Char} {major minor major' minor' : Nat} {v w : HalVersion} {s : String}

/-- A major and a minor number in decimal digits, with a point between them. -/
inductive Writes (major minor : Nat) : List Char → Prop
  | intro {ds ds' : List Char} (hmajor : WritesNat 10 major ds) (hminor : WritesNat 10 minor ds') :
      Writes major minor (ds ++ '.' :: ds')

/-- The number has 32 bits. -/
def Fits (n : Nat) : Prop := n < 2 ^ 32

theorem Writes.exists_splitOn (h : Writes major minor cs) : ∃ ds ds', cs.splitOn '.' = [ds, ds'] ∧
    WritesNat 10 major ds ∧ WritesNat 10 minor ds' := by
  cases h with
  | intro hmajor hminor =>
      exact ⟨_, _, Text.splitOn_pair (hmajor.notMem (by decide)) (hminor.notMem (by decide)), hmajor, hminor⟩

/-- A text writes at most one version. -/
theorem Writes.unique (h : Writes major minor cs) (h' : Writes major' minor' cs) :
    major = major' ∧ minor = minor' := by
  obtain ⟨ds, es, hsplit, hmajor, hminor⟩ := h.exists_splitOn
  obtain ⟨ds', es', hsplit', hmajor', hminor'⟩ := h'.exists_splitOn
  obtain ⟨rfl, rfl⟩ : ds = ds' ∧ es = es' := by simpa using hsplit.symm.trans hsplit'
  rw [← Text.readNat?_eq_some_iff (by decide)] at hmajor hminor hmajor' hminor'
  exact ⟨Option.some.inj (hmajor.symm.trans hmajor'), Option.some.inj (hminor.symm.trans hminor')⟩

/-- **The form of a version is that of two numbers**, whatever their size. -/
theorem hasForm_iff : hasForm cs ↔ ∃ major minor, Writes major minor cs := by
  have hpair : ∀ ds ds' : List Char,
      (!ds.isEmpty && ds.all Char.isDigit && !ds'.isEmpty && ds'.all Char.isDigit) = true ↔
        (∃ n, WritesNat 10 n ds) ∧ ∃ n, WritesNat 10 n ds' := by
    intro ds ds'
    simp [Text.exists_writesNat_iff, and_assoc]
  constructor
  · intro h
    rw [hasForm] at h
    split at h
    · next ds ds' hsplit =>
        obtain ⟨⟨major, hmajor⟩, minor, hminor⟩ := (hpair ds ds').mp h
        rw [Text.eq_of_splitOn_pair hsplit]
        exact ⟨major, minor, .intro hmajor hminor⟩
    · contradiction
  · rintro ⟨major, minor, h⟩
    obtain ⟨ds, ds', hsplit, hmajor, hminor⟩ := h.exists_splitOn
    rw [hasForm, hsplit]
    exact (hpair ds ds').mpr ⟨⟨major, hmajor⟩, minor, hminor⟩

theorem readComponent?_eq_some_iff {n : UInt32} {ds : List Char} :
    readComponent? ds = some n ↔ WritesNat 10 n.toNat ds := by
  rw [readComponent?, Option.bind_eq_some_iff, ← Text.readNat?_eq_some_iff (by decide)]
  constructor
  · rintro ⟨k, hk, h⟩
    split at h
    · next hlt =>
        obtain rfl := Option.some.inj h
        rw [hk, UInt32.toNat_ofNat_of_lt' hlt]
    · contradiction
  · intro h
    refine ⟨n.toNat, h, ?_⟩
    rw [if_pos n.toNat_lt_size, UInt32.ofNat_toNat]

theorem ofChars?_eq_some_iff : ofChars? cs = some v ↔ Writes v.major.toNat v.minor.toNat cs := by
  constructor
  · intro h
    rw [ofChars?] at h
    split at h
    · next ds ds' hsplit =>
        simp only [Option.bind_eq_bind, Option.bind_eq_some_iff, Option.some.injEq] at h
        obtain ⟨major, hmajor, minor, hminor, rfl⟩ := h
        rw [Text.eq_of_splitOn_pair hsplit]
        exact .intro (readComponent?_eq_some_iff.mp hmajor) (readComponent?_eq_some_iff.mp hminor)
    · contradiction
  · intro h
    obtain ⟨ds, ds', hsplit, hmajor, hminor⟩ := h.exists_splitOn
    rw [ofChars?, hsplit]
    simp only [readComponent?_eq_some_iff.mpr hmajor, readComponent?_eq_some_iff.mpr hminor,
      Option.bind_eq_bind, Option.bind_some]

theorem parse_eq_ok_iff : parse s = .ok v ↔ Writes v.major.toNat v.minor.toNat s.toList := by
  rw [← ofChars?_eq_some_iff, parse]
  cases ofChars? s.toList <;> simp

/-- **A version can be used exactly if both of its numbers have 32 bits.** -/
theorem exists_parse_iff (h : Writes major minor s.toList) :
    (∃ v, parse s = .ok v) ↔ Fits major ∧ Fits minor := by
  constructor
  · rintro ⟨v, hv⟩
    obtain ⟨rfl, rfl⟩ := h.unique (parse_eq_ok_iff.mp hv)
    exact ⟨v.major.toNat_lt, v.minor.toNat_lt⟩
  · rintro ⟨hmajor, hminor⟩
    refine ⟨⟨UInt32.ofNat major, UInt32.ofNat minor⟩, parse_eq_ok_iff.mpr ?_⟩
    rwa [UInt32.toNat_ofNat_of_lt' hmajor, UInt32.toNat_ofNat_of_lt' hminor]

theorem parse_eq_error_iff {reason : String} :
    parse s = .error reason ↔ (¬ ∃ v, parse s = .ok v) ∧ reason = refusal s := by
  rw [parse]
  cases ofChars? s.toList <;> simp [eq_comm]

/-! ## The texts of a version -/

/-- The text of a version without the zeros in front of its numbers. -/
def shortened (cs : List Char) : List Char := ['.'].intercalate ((cs.splitOn '.').map Text.dropZeros)

theorem toList_text (v : HalVersion) :
    v.text.toList = Nat.toDigits 10 v.major.toNat ++ '.' :: Nat.toDigits 10 v.minor.toNat := by
  rw [text]
  simp only [String.toList_append, Nat.toString_eq_repr, Nat.toList_repr, List.append_assoc]
  rfl

theorem toList_suffix (v : HalVersion) :
    v.suffix.toList = Nat.toDigits 10 v.major.toNat ++ '_' :: Nat.toDigits 10 v.minor.toNat := by
  rw [suffix]
  simp only [String.toList_append, Nat.toString_eq_repr, Nat.toList_repr, List.append_assoc]
  rfl

theorem parse_text (v : HalVersion) : parse v.text = .ok v := by
  rw [parse_eq_ok_iff, toList_text]
  exact .intro (Text.writesNat_toDigits _) (Text.writesNat_toDigits _)

theorem toList_text_of_parse (h : parse s = .ok v) : v.text.toList = shortened s.toList := by
  obtain ⟨ds, ds', hsplit, hmajor, hminor⟩ := (parse_eq_ok_iff.mp h).exists_splitOn
  rw [shortened, hsplit, toList_text, ← hmajor.dropZeros_eq, ← hminor.dropZeros_eq]
  simp

/-- The numbers of a version are told apart in the form that names are made of. -/
theorem suffix_inj : v.suffix = w.suffix ↔ v = w := by
  have hsplit : ∀ v : HalVersion, v.suffix.toList.splitOn '_' =
      [Nat.toDigits 10 v.major.toNat, Nat.toDigits 10 v.minor.toNat] := by
    intro v
    rw [toList_suffix]
    apply Text.splitOn_pair
    · exact (Text.writesNat_toDigits _).notMem (by decide)
    · exact (Text.writesNat_toDigits _).notMem (by decide)
  constructor
  · intro h
    have hpieces := hsplit v
    rw [h, hsplit w] at hpieces
    obtain ⟨hmajor, hminor⟩ : Nat.toDigits 10 w.major.toNat = Nat.toDigits 10 v.major.toNat ∧
        Nat.toDigits 10 w.minor.toNat = Nat.toDigits 10 v.minor.toNat := by simpa using hpieces
    have hmajors : w.major = v.major := UInt32.toNat_inj.mp (Text.toDigits_inj hmajor)
    have hminors : w.minor = v.minor := UInt32.toNat_inj.mp (Text.toDigits_inj hminor)
    cases v
    cases w
    exact congrArg₂ mk hmajors.symm hminors.symm
  · rintro rfl
    rfl

theorem compare_eq (v w : HalVersion) : compare v w =
    (compare v.major.toNat w.major.toNat).then (compare v.minor.toNat w.minor.toNat) := by
  show instOrdHalVersion.ord v w = _
  rw [instOrdHalVersion.ord, Ordering.then_eq, UInt32.compare_eq_toNat_compare_toNat,
    UInt32.compare_eq_toNat_compare_toNat]

theorem fileName_inj {o o' : Python.Options} {m m' : Model} :
    (Python.document o m).fileName = (Python.document o' m').fileName ↔ o.halVersion = o'.halVersion := by
  rw [← suffix_inj]
  show "vhal_consts_" ++ o.halVersion.suffix ++ ".py" = "vhal_consts_" ++ o'.halVersion.suffix ++ ".py" ↔ _
  rw [String.append_left_inj, String.append_right_inj]

theorem className_inj :
    (Python.valueTypesClass v).name = (Python.valueTypesClass w).name ↔ v = w := by
  rw [← suffix_inj]
  exact String.append_right_inj "vhal_types_"

/-- **Versions and their texts.** A text is read as the version whose two numbers it writes, if both have 32 bits.
The text of a version is read back, and it is that of any text for the version without the zeros in front of
its numbers. The names made of two versions are equal only if the versions are, and versions are ordered by
their numbers, the major one first. -/
theorem texts_of_versions (s : String) (v w : HalVersion) :
    (∀ major minor, (∃ v, parse s = .ok v ∧ v.major.toNat = major ∧ v.minor.toNat = minor) ↔
      Writes major minor s.toList ∧ Fits major ∧ Fits minor) ∧
    parse v.text = .ok v ∧
    (parse s = .ok v → v.text.toList = shortened s.toList) ∧
    (v.suffix = w.suffix ↔ v = w) ∧
    (∀ (o o' : Python.Options) (m m' : Model),
      (Python.document o m).fileName = (Python.document o' m').fileName ↔ o.halVersion = o'.halVersion) ∧
    ((Python.valueTypesClass v).name = (Python.valueTypesClass w).name ↔ v = w) ∧
    compare v w =
      (compare v.major.toNat w.major.toNat).then (compare v.minor.toNat w.minor.toNat) := by
  refine ⟨?_, parse_text v, toList_text_of_parse, suffix_inj, fun o o' m m' => fileName_inj, className_inj,
    compare_eq v w⟩
  intro major minor
  constructor
  · rintro ⟨v, hv, rfl, rfl⟩
    exact ⟨parse_eq_ok_iff.mp hv, v.major.toNat_lt, v.minor.toNat_lt⟩
  · rintro ⟨hwrites, hfits⟩
    obtain ⟨v, hv⟩ := (exists_parse_iff hwrites).mpr hfits
    obtain ⟨rfl, rfl⟩ := hwrites.unique (parse_eq_ok_iff.mp hv)
    exact ⟨v, hv, rfl, rfl⟩

/-- Zeros in front of both numbers, and digits on either side of the mark between them. -/
theorem texts_of_versions_zeros : parse "007.0010" = .ok ⟨7, 10⟩ ∧ "7.10".toList = shortened "007.0010".toList ∧
    suffix ⟨11, 0⟩ ≠ suffix ⟨1, 10⟩ := by
  have hparse : parse "007.0010" = .ok ⟨7, 10⟩ := by decide +kernel
  obtain ⟨-, -, hshort, -⟩ := texts_of_versions "007.0010" ⟨7, 10⟩ ⟨7, 10⟩
  obtain ⟨-, -, -, hsuffix, -⟩ := texts_of_versions "" ⟨11, 0⟩ ⟨1, 10⟩
  exact ⟨hparse, hshort hparse, mt hsuffix.mp (by decide)⟩

end HalVersion

end HalConstants
