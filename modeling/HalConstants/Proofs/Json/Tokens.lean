import HalConstants.Json.Scan
import HalConstants.Proofs.Text.Numeral

/-!
# JSON strings and numbers as written

A string is written character by character: as itself, by a short escape, or by one or two escaped 16-bit
units. A number is written as its sign, whole part, fraction and exponent. Whatever way is chosen, the scan
reads the string or the number that was meant and stops right behind it.
-/

namespace HalConstants.Json

open Scan (StringUnit)

variable {c : Char} {s cs ds rest : List Char} {n high low : Nat}

/-! ## Strings -/

/-- `cs` writes the characters `s` between quotes. -/
inductive SpellsString : List Char → List Char → Prop
  | nil : SpellsString [] []
  | plain {c : Char} {s cs : List Char} (hc : 0x20 ≤ c.toNat) (hquote : c ≠ '"') (hslash : c ≠ '\\')
      (h : SpellsString s cs) : SpellsString (c :: s) (c :: cs)
  | short {e c : Char} {s cs : List Char} (he : Scan.escape? e = some c) (h : SpellsString s cs) :
      SpellsString (c :: s) ('\\' :: e :: cs)
  | unit {a b c d : Char} {n : Nat} {s cs : List Char} (hn : Text.WritesDigits 16 n [a, b, c, d])
      (hhigh : ¬ Scan.isHighSurrogate n) (hlow : ¬ Scan.isLowSurrogate n) (h : SpellsString s cs) :
      SpellsString (Char.ofNat n :: s) ('\\' :: 'u' :: a :: b :: c :: d :: cs)
  | pair {a b c d a' b' c' d' : Char} {high low : Nat} {s cs : List Char}
      (hhigh : Scan.isHighSurrogate high) (hlow : Scan.isLowSurrogate low)
      (hn : Text.WritesDigits 16 high [a, b, c, d]) (hn' : Text.WritesDigits 16 low [a', b', c', d'])
      (h : SpellsString s cs) :
      SpellsString (Char.ofNat (0x10000 + (high - 0xD800) * 0x400 + (low - 0xDC00)) :: s)
        ('\\' :: 'u' :: a :: b :: c :: d :: '\\' :: 'u' :: a' :: b' :: c' :: d' :: cs)

theorem spellsString_self (h : ∀ c ∈ s, 0x20 ≤ c.toNat ∧ c ≠ '"' ∧ c ≠ '\\') : SpellsString s s := by
  induction s with
  | nil => exact .nil
  | cons c s ih =>
      rw [List.forall_mem_cons] at h
      exact .plain h.1.1 h.1.2.1 h.1.2.2 (ih h.2)

theorem ofUnits_escaped (hhigh : ¬ Scan.isHighSurrogate n) (hlow : ¬ Scan.isLowSurrogate n)
    (units : List StringUnit) :
    Scan.ofUnits true (.escaped n :: units) = (Scan.ofUnits true units).map (Char.ofNat n :: ·) := by
  cases units with
  | nil => simp [Scan.ofUnits, hhigh, hlow, Except.map]
  | cons unit units =>
      cases unit with
      | char c =>
          simp only [Scan.ofUnits, hhigh, hlow, Bool.or_self, Bool.false_eq_true, if_false]
          cases Scan.ofUnits true units <;> rfl
      | escaped low =>
          rw [Scan.ofUnits, if_neg (by simp [hhigh]), if_neg (by simp [hhigh, hlow])]

theorem stringUnits_plain (hc : 0x20 ≤ c.toNat) (hquote : c ≠ '"') (hslash : c ≠ '\\') (cs : List Char) :
    Scan.stringUnits (c :: cs) = (.char c :: (Scan.stringUnits cs).1, (Scan.stringUnits cs).2) := by
  simp [Scan.stringUnits, hslash, Nat.not_lt.mpr hc]

theorem stringUnits_short {e : Char} (he : Scan.escape? e = some c) (cs : List Char) :
    Scan.stringUnits ('\\' :: e :: cs) = (.char c :: (Scan.stringUnits cs).1, (Scan.stringUnits cs).2) := by
  have hu : e ≠ 'u' := by
    rintro rfl
    contradiction
  simp [Scan.stringUnits, he, hu]

theorem stringUnits_unit {a b c d : Char} (hn : Text.WritesDigits 16 n [a, b, c, d]) (cs : List Char) :
    Scan.stringUnits ('\\' :: 'u' :: a :: b :: c :: d :: cs) =
      (.escaped n :: (Scan.stringUnits cs).1, (Scan.stringUnits cs).2) := by
  rw [Scan.stringUnits, Text.readNat?_of_writesDigits (by decide) (by decide) hn]

theorem SpellsString.units (h : SpellsString s cs) (rest : List Char) :
    ∃ units, Scan.stringUnits (cs ++ '"' :: rest) = (units, .ok rest) ∧
      Scan.ofUnits true units = .ok s := by
  induction h with
  | nil => exact ⟨[], by simp [Scan.stringUnits], rfl⟩
  | @plain c s cs hc hquote hslash h ih =>
      obtain ⟨units, hunits, hs⟩ := ih
      refine ⟨.char c :: units, ?_, ?_⟩
      · rw [List.cons_append, stringUnits_plain hc hquote hslash, hunits]
      · rw [Scan.ofUnits, hs]
        rfl
  | @short e c s cs he h ih =>
      obtain ⟨units, hunits, hs⟩ := ih
      refine ⟨.char c :: units, ?_, ?_⟩
      · rw [List.cons_append, List.cons_append, stringUnits_short he, hunits]
      · rw [Scan.ofUnits, hs]
        rfl
  | @unit a b c d n s cs hn hhigh hlow h ih =>
      obtain ⟨units, hunits, hs⟩ := ih
      refine ⟨.escaped n :: units, ?_, ?_⟩
      · simp only [List.cons_append]
        rw [stringUnits_unit hn, hunits]
      · rw [ofUnits_escaped hhigh hlow, hs]
        rfl
  | @pair a b c d a' b' c' d' high low s cs hhigh hlow hn hn' h ih =>
      obtain ⟨units, hunits, hs⟩ := ih
      refine ⟨.escaped high :: .escaped low :: units, ?_, ?_⟩
      · simp only [List.cons_append]
        rw [stringUnits_unit hn, stringUnits_unit hn', hunits]
      · rw [Scan.ofUnits, if_pos (by simp [hhigh, hlow]), hs]
        rfl

/-- **A written string is read back**, up to its closing quote. -/
theorem string?_of_spellsString (h : SpellsString s cs) (rest : List Char) :
    Scan.string? (cs ++ '"' :: rest) = .ok (.ok (String.ofList s), rest) := by
  obtain ⟨units, hunits, hs⟩ := h.units rest
  rw [Scan.string?, hunits]
  simp only [hs]
  rfl

/-! ## Numbers -/

/-- A zero, or digits that start with none. -/
inductive IsWhole : List Char → Prop
  | zero : IsWhole ['0']
  | digits {c : Char} {cs : List Char} (hc : c ≠ '0') (h : ∀ d ∈ c :: cs, d.isDigit) : IsWhole (c :: cs)

inductive SpellsFraction : Option (List Char) → List Char → Prop
  | none : SpellsFraction none []
  | some {ds : List Char} (hne : ds ≠ []) (h : ∀ d ∈ ds, d.isDigit) : SpellsFraction (some ds) ('.' :: ds)

/-- The exponent behind its letter and sign. -/
def exponentOf (negative : Bool) (ds : List Char) : Int :=
  let n : Int := (Text.readNat? 10 ds).getD 0
  if negative then -n else n

inductive SpellsExponent : Option Int → List Char → Prop
  | none : SpellsExponent none []
  | unsigned {e : Char} {ds : List Char} (he : e = 'e' ∨ e = 'E') (hne : ds ≠ []) (h : ∀ d ∈ ds, d.isDigit) :
      SpellsExponent (some (exponentOf false ds)) (e :: ds)
  | signed {e sign : Char} {ds : List Char} (he : e = 'e' ∨ e = 'E') (hsign : sign = '+' ∨ sign = '-')
      (hne : ds ≠ []) (h : ∀ d ∈ ds, d.isDigit) :
      SpellsExponent (some (exponentOf (sign == '-') ds)) (e :: sign :: ds)

inductive SpellsDecimal : Decimal → List Char → Prop
  | mk (negative : Bool) {whole cs cs' : List Char} {fraction : Option (List Char)} {exponent : Option Int}
      (hwhole : IsWhole whole) (hfraction : SpellsFraction fraction cs)
      (hexponent : SpellsExponent exponent cs') :
      SpellsDecimal
        { negative := negative, whole := whole, fraction := fraction.getD [], exponent := exponent.getD 0,
          isInteger := fraction.isNone && exponent.isNone }
        ((if negative then ['-'] else []) ++ (whole ++ (cs ++ cs')))

/-- What does not go on a number. -/
def EndsNumber (rest : List Char) : Prop := ∀ c ∈ rest.head?, ¬ c.isDigit ∧ c ≠ '.' ∧ c ≠ 'e' ∧ c ≠ 'E'

theorem splitDigits_append (hds : ∀ d ∈ ds, d.isDigit) (hrest : ∀ c ∈ rest.head?, ¬ c.isDigit) :
    Scan.splitDigits (ds ++ rest) = (ds, rest) := by
  have hstop : rest.takeWhile Char.isDigit = [] ∧ rest.dropWhile Char.isDigit = rest := by
    cases rest with
    | nil => exact ⟨rfl, rfl⟩
    | cons c rest => simp [hrest c rfl]
  rw [Scan.splitDigits, List.takeWhile_append_of_pos hds, List.dropWhile_append_of_pos hds, hstop.1, hstop.2,
    List.append_nil]

theorem digits?_append (hne : ds ≠ []) (hds : ∀ d ∈ ds, d.isDigit) (hrest : ∀ c ∈ rest.head?, ¬ c.isDigit) :
    Scan.digits? (ds ++ rest) = .ok (ds, rest) := by
  have hsplit := splitDigits_append hds hrest
  cases ds with
  | nil => contradiction
  | cons d ds =>
      rw [List.cons_append] at hsplit ⊢
      simp [Scan.digits?, hsplit]

theorem IsWhole.isDigit (h : IsWhole ds) : ∀ d ∈ ds, d.isDigit := by
  cases h with
  | zero => exact List.forall_mem_singleton.mpr rfl
  | digits _ h => exact h

theorem wholePart?_append (h : IsWhole ds) (hrest : ∀ c ∈ rest.head?, ¬ c.isDigit) :
    Scan.wholePart? (ds ++ rest) = .ok (ds, rest) := by
  cases h with
  | zero =>
      have hhead : rest.head?.any Char.isDigit = false := by
        cases rest with
        | nil => rfl
        | cons c rest => simpa using hrest c rfl
      simp [Scan.wholePart?, hhead]
  | @digits c ds hc hds =>
      have hsplit := splitDigits_append hds hrest
      have hdigit := hds c (.head ds)
      rw [List.cons_append] at hsplit ⊢
      simp [Scan.wholePart?, hdigit, hsplit]

theorem SpellsFraction.head {fraction : Option (List Char)} (h : SpellsFraction fraction cs)
    (hrest : ∀ c ∈ rest.head?, ¬ c.isDigit) : ∀ c ∈ (cs ++ rest).head?, ¬ c.isDigit := by
  cases h with
  | none => exact hrest
  | some hne hds =>
      rintro c hc
      obtain rfl : '.' = c := by simpa using hc
      decide

theorem SpellsExponent.head {exponent : Option Int} (h : SpellsExponent exponent cs)
    (hrest : EndsNumber rest) : ∀ c ∈ (cs ++ rest).head?, ¬ c.isDigit ∧ c ≠ '.' := by
  have hletter : ∀ {e c : Char}, e = 'e' ∨ e = 'E' → some e = some c → ¬ c.isDigit ∧ c ≠ '.' := by
    rintro e c (rfl | rfl) ⟨⟩ <;> decide
  cases h with
  | none => exact fun c hc => ⟨(hrest c hc).1, (hrest c hc).2.1⟩
  | unsigned he _ _ => exact fun c hc => hletter he hc
  | signed he _ _ _ => exact fun c hc => hletter he hc

theorem fraction?_append {fraction : Option (List Char)} (h : SpellsFraction fraction cs)
    (hrest : ∀ c ∈ rest.head?, ¬ c.isDigit ∧ c ≠ '.') :
    Scan.fraction? (cs ++ rest) = .ok (fraction, rest) := by
  cases h with
  | none =>
      rw [List.nil_append, Scan.fraction?.eq_def]
      split
      · next rest' heq => exact absurd rfl (hrest '.' (by simp)).2
      · rfl
  | some hne hds =>
      have hdigits := digits?_append hne hds fun c hc => (hrest c hc).1
      simp [Scan.fraction?, hdigits, Except.map]

theorem exponentDigits?_append (negative : Bool) (hne : ds ≠ []) (hds : ∀ d ∈ ds, d.isDigit)
    (hrest : EndsNumber rest) :
    Scan.exponentDigits? negative (ds ++ rest) = .ok (some (exponentOf negative ds), rest) := by
  rw [Scan.exponentDigits?, digits?_append hne hds fun c hc => (hrest c hc).1]
  rfl

theorem exponent?_append {exponent : Option Int} (h : SpellsExponent exponent cs) (hrest : EndsNumber rest) :
    Scan.exponent? (cs ++ rest) = .ok (exponent, rest) := by
  cases h with
  | none =>
      cases rest with
      | nil => rfl
      | cons c rest =>
          obtain ⟨-, -, he, hE⟩ := hrest c rfl
          simp [Scan.exponent?, he, hE]
  | @unsigned e ds he hne hds =>
      have hdigits := exponentDigits?_append false hne hds hrest
      cases ds with
      | nil => contradiction
      | cons d ds =>
          have hsign : d ≠ '+' ∧ d ≠ '-' := by
            have := hds d (.head ds)
            constructor <;> rintro rfl <;> contradiction
          rw [List.cons_append] at hdigits
          simp [Scan.exponent?, he, hsign, hdigits]
  | @signed e sign ds he hsign hne hds =>
      have hdigits := exponentDigits?_append (sign == '-') hne hds hrest
      rcases hsign with rfl | rfl <;> simpa [Scan.exponent?, he] using hdigits

theorem splitSign_append (negative : Bool) (hcs : '-' ∉ cs.head?) :
    Text.splitSign ((if negative then ['-'] else []) ++ cs) = (negative, cs) := by
  cases negative with
  | true => rfl
  | false =>
      simp only [Bool.false_eq_true, if_false, List.nil_append]
      rw [Text.splitSign.eq_def]
      split
      · simp at hcs
      · rfl

/-- **A written number is read back**, up to what cannot go on it. -/
theorem number?_of_spellsDecimal {d : Decimal} (h : SpellsDecimal d cs) (hrest : EndsNumber rest) :
    Scan.number? (cs ++ rest) = .ok (d.number?.elim (.error .malformed) .ok, rest) := by
  cases h with
  | @mk negative whole cs cs' fraction exponent hwhole hfraction hexponent =>
      have hhead := hexponent.head hrest
      have hminus : '-' ∉ (whole ++ (cs ++ (cs' ++ rest))).head? := by
        cases hwhole with
        | zero => simp
        | @digits c ds _ hds =>
            have := hds c (.head ds)
            rintro ⟨⟩
            contradiction
      have hsign := splitSign_append negative hminus
      have hw := wholePart?_append hwhole (hfraction.head fun c hc => (hhead c hc).1)
      have hf := fraction?_append hfraction hhead
      have he := exponent?_append hexponent hrest
      simp only [List.append_assoc, Scan.number?, hsign, hw, hf, he, bind, Except.bind]
      rfl

/-- A number in decimal digits. -/
def integerText (i : Int) : List Char := (if i < 0 then ['-'] else []) ++ Nat.toDigits 10 i.natAbs

theorem exists_head_toDigits (h : 0 < n) : ∃ c cs, Nat.toDigits 10 n = c :: cs ∧ c ≠ '0' := by
  induction n using Nat.strongRecOn with
  | ind n ih =>
      by_cases hn : n < 10
      · have hdigit : ∀ d < 10, 0 < d → Nat.digitChar d ≠ '0' := by decide
        exact ⟨n.digitChar, [], Nat.toDigits_of_lt_base hn, hdigit n hn h⟩
      · obtain ⟨c, cs, hcs, hc⟩ := ih (n / 10) (by omega) (by omega)
        refine ⟨c, cs ++ [(n % 10).digitChar], ?_, hc⟩
        rw [Nat.toDigits_of_base_le (by decide) (by omega), hcs, List.cons_append]

theorem isWhole_toDigits (n : Nat) : IsWhole (Nat.toDigits 10 n) := by
  cases n with
  | zero => exact .zero
  | succ n =>
      obtain ⟨c, cs, hcs, hc⟩ := exists_head_toDigits n.succ_pos
      have hdigits : ∀ d ∈ Nat.toDigits 10 (n + 1), d.isDigit := fun d hd =>
        Nat.isDigit_of_mem_toDigits (by decide) (by decide) hd
      rw [hcs] at hdigits ⊢
      exact .digits hc hdigits

theorem spellsDecimal_integerText (i : Int) : SpellsDecimal
    { negative := i < 0, whole := Nat.toDigits 10 i.natAbs, isInteger := true } (integerText i) := by
  have h := SpellsDecimal.mk (decide (i < 0)) (isWhole_toDigits i.natAbs) .none .none
  simpa [integerText] using h

theorem number?_integer {i : Int} (hlow : -0x8000000000000000 ≤ i) (hhigh : i < 0x10000000000000000) :
    ({ negative := i < 0, whole := Nat.toDigits 10 i.natAbs, isInteger := true } : Decimal).number? =
      some (.integer i) := by
  have hmax : maxUnsigned = 2 ^ 64 - 1 := rfl
  have hpow : Nat.pow 2 63 = 2 ^ 63 := rfl
  simp only [Decimal.number?, Text.readNat?_toDigits (by decide : 1 < 10) (by decide), Option.getD_some,
    Bool.true_and]
  by_cases hi : i < 0
  · have hne : (i.natAbs != 0) = true := bne_iff_ne.mpr (by omega)
    have hle : i.natAbs ≤ Nat.pow 2 63 := by omega
    have habs : -(i.natAbs : Int) = i := by omega
    simp only [hi, hne, hle, habs, decide_true, Bool.and_self, if_true]
  · have hle : i.natAbs ≤ maxUnsigned := by omega
    have habs : (i.natAbs : Int) = i := by omega
    simp only [hi, hle, habs, decide_false, decide_true, Bool.false_and, Bool.not_false, Bool.true_and,
      Bool.false_eq_true, if_false, if_true]

end HalConstants.Json
