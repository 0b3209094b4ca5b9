import HalConstants.Proofs.EnumDocument.ReadBack
import HalConstants.Proofs.Text.NumeralGrammar

/-!
# Which documents are accepted

A group offends if a text for the value of one of its cases is no number of 64 bits, or if a group in front
of it has its name. Once its groups are decoded, a document is accepted exactly if none of them offends, and
otherwise the first group that does decides the error (`parse_first_offence`): an unreadable case counts before
a repeated name, and of the unreadable cases the first one.
-/

namespace HalConstants.EnumDocument

open Text (Denotes FitsInt64)

variable {path group : String} {seen seen' : List String} {c : RawCase} {g : RawGroup}
  {raws : List RawGroup} {e : InputError}

/-- The text writes a number of 64 bits. -/
def WritesInt64 (s : String) : Prop := ∃ i, Denotes s.toList i ∧ FitsInt64 i

/-- A text for the value of the case is a number. -/
def RawCase.IsReadable (c : RawCase) : Prop := ∀ s, c.value = .text s → WritesInt64 s

/-- How a group fails behind groups with the names `seen`. -/
inductive Offends (path : String) (seen : List String) (g : RawGroup) : InputError → Prop
  | unreadable {before after : List RawCase} {c : RawCase} {s : String}
      (hcases : g.cases = before ++ c :: after) (hbefore : ∀ b ∈ before, b.IsReadable)
      (hc : c.value = .text s) (hs : ¬ WritesInt64 s) :
      Offends path seen g (.invalidCaseValue g.name c.name s)
  | repeated (hcases : ∀ c ∈ g.cases, c.IsReadable) (hname : g.name ∈ seen) :
      Offends path seen g (.duplicateGroup path g.name)

/-- No group offends. -/
structure Acceptable (raws : List RawGroup) : Prop where
  readable : ∀ g ∈ raws, ∀ c ∈ g.cases, c.IsReadable
  nodup : (raws.map (·.name)).Nodup

/-! ## Cases -/

theorem exists_readInt64?_iff {s : String} : (∃ v, Text.readInt64? s.toList = some v) ↔ WritesInt64 s := by
  constructor
  · rintro ⟨v, hv⟩
    exact ⟨v.toInt, Text.readInt64?_eq_some_iff.mp hv, Text.fitsInt64_toInt v⟩
  · rintro ⟨i, hdenotes, hfits⟩
    obtain ⟨v, rfl⟩ := hfits.exists_toInt
    exact ⟨v, Text.readInt64?_eq_some_iff.mpr hdenotes⟩

theorem resolveCase_eq_error_iff : resolveCase group c = .error e ↔
    ∃ s, c.value = .text s ∧ ¬ WritesInt64 s ∧ e = .invalidCaseValue group c.name s := by
  obtain ⟨name, value⟩ := c
  unfold resolveCase
  cases value with
  | integer i =>
      constructor
      · intro h
        contradiction
      · rintro ⟨s, hs, -⟩
        contradiction
  | text s =>
      have hresolve : (RawValue.text s).resolve? = Text.readInt64? s.toList := rfl
      rw [hresolve]
      constructor
      · intro h
        split at h
        · contradiction
        · next hnone =>
            refine ⟨s, rfl, ?_, (Except.error.inj h).symm⟩
            rw [← exists_readInt64?_iff, hnone]
            rintro ⟨v, hv⟩
            contradiction
      · rintro ⟨s', hs, hunreadable, rfl⟩
        obtain rfl := RawValue.text.inj hs
        have hnone : Text.readInt64? s.toList = none := by
          apply Option.eq_none_iff_forall_ne_some.mpr
          intro v hv
          exact hunreadable (exists_readInt64?_iff.mp ⟨v, hv⟩)
        rw [hnone]
        rfl

theorem exists_resolveCase_eq_ok_iff : (∃ v, resolveCase group c = .ok v) ↔ c.IsReadable := by
  constructor
  · rintro ⟨v, hv⟩ s hs
    by_contra hunreadable
    rw [resolveCase_eq_error_iff.mpr ⟨s, hs, hunreadable, rfl⟩] at hv
    contradiction
  · intro hc
    cases h : resolveCase group c with
    | ok v => exact ⟨v, rfl⟩
    | error e =>
        obtain ⟨s, hs, hunreadable, -⟩ := resolveCase_eq_error_iff.mp h
        exact absurd (hc s hs) hunreadable

theorem exists_resolveCases_eq_ok_iff {cs : List RawCase} :
    (∃ cases, cs.mapM (resolveCase group) = .ok cases) ↔ ∀ c ∈ cs, c.IsReadable := by
  simp only [exists_mapM_eq_ok_iff, exists_resolveCase_eq_ok_iff]

/-! ## One group -/

/-- A group fails as the first of its cases that fails, or else by its name. -/
theorem offends_iff : Offends path seen g e ↔ g.cases.mapM (resolveCase g.name) = .error e ∨
    (∃ cases, g.cases.mapM (resolveCase g.name) = .ok cases) ∧ g.name ∈ seen ∧
      e = .duplicateGroup path g.name := by
  constructor
  · rintro (⟨hcases, hbefore, hc, hs⟩ | ⟨hcases, hname⟩)
    · left
      refine mapM_eq_error_iff.mpr ⟨_, _, _, hcases, ?_, resolveCase_eq_error_iff.mpr ⟨_, hc, hs, rfl⟩⟩
      intro b hb
      exact exists_resolveCase_eq_ok_iff.mpr (hbefore b hb)
    · right
      exact ⟨exists_resolveCases_eq_ok_iff.mpr hcases, hname, rfl⟩
  · rintro (h | ⟨hcases, hname, rfl⟩)
    · obtain ⟨before, c, after, hcases, hbefore, hc⟩ := mapM_eq_error_iff.mp h
      obtain ⟨s, hs, hunreadable, rfl⟩ := resolveCase_eq_error_iff.mp hc
      refine .unreadable hcases ?_ hs hunreadable
      intro b hb
      exact exists_resolveCase_eq_ok_iff.mp (hbefore b hb)
    · exact .repeated (exists_resolveCases_eq_ok_iff.mp hcases) hname

/-- Of the groups in front only the names count, in any order. -/
theorem Offends.congr (hseen : ∀ name, name ∈ seen ↔ name ∈ seen') (h : Offends path seen g e) :
    Offends path seen' g e := by
  rw [offends_iff] at h ⊢
  rwa [← hseen]

theorem resolveAfter_cons_of_offends (h : Offends path seen g e) :
    resolveAfter path seen (g :: raws) = .error e := by
  unfold resolveAfter
  rcases offends_iff.mp h with hcases | ⟨⟨cases, hcases⟩, hname, rfl⟩
  · rw [hcases]
    rfl
  · rw [hcases]
    show (if seen.contains g.name then _ else _) = _
    rw [if_pos (List.contains_iff_mem.mpr hname)]

/-- A group that does not offend stands in front of what becomes of the groups behind it. -/
theorem resolveAfter_cons_of_fresh {cases : List Case} (hcases : g.cases.mapM (resolveCase g.name) = .ok cases)
    (hname : g.name ∉ seen) : resolveAfter path seen (g :: raws) =
      (resolveAfter path (g.name :: seen) raws).map (⟨g.name, cases⟩ :: ·) := by
  rw [resolveAfter, hcases]
  show (if seen.contains g.name then _ else _) = _
  rw [if_neg (by simpa using hname)]
  rfl

/-- A group of which every case is readable and whose name is new does not offend. -/
theorem exists_offends_iff :
    (∃ e, Offends path seen g e) ↔ ¬ ((∀ c ∈ g.cases, c.IsReadable) ∧ g.name ∉ seen) := by
  rw [← exists_resolveCases_eq_ok_iff]
  simp only [offends_iff]
  cases hcases : g.cases.mapM (resolveCase g.name) with
  | error e => simp
  | ok cases => simp

/-- **A step of the reading**: the group offends, or the groups behind it fail behind its name. -/
theorem resolveAfter_cons_eq_error_iff : resolveAfter path seen (g :: raws) = .error e ↔
    Offends path seen g e ∨ ((∀ c ∈ g.cases, c.IsReadable) ∧ g.name ∉ seen) ∧
      resolveAfter path (g.name :: seen) raws = .error e := by
  by_cases hfine : (∀ c ∈ g.cases, c.IsReadable) ∧ g.name ∉ seen
  · have hnone : ¬ Offends path seen g e := fun h => exists_offends_iff.mp ⟨e, h⟩ hfine
    obtain ⟨cases, hcases⟩ := exists_resolveCases_eq_ok_iff.mpr hfine.1
    rw [resolveAfter_cons_of_fresh hcases hfine.2, or_iff_right hnone, and_iff_right hfine]
    cases resolveAfter path (g.name :: seen) raws <;> simp [Except.map]
  · rw [or_iff_left fun h => hfine h.1]
    constructor
    · intro heq
      obtain ⟨e', h⟩ := exists_offends_iff.mpr hfine
      rw [resolveAfter_cons_of_offends h] at heq
      exact Except.error.inj heq ▸ h
    · exact resolveAfter_cons_of_offends

/-! ## All groups -/

/-- No group offends behind groups with the names `seen`. -/
structure AcceptableAfter (seen : List String) (raws : List RawGroup) : Prop extends Acceptable raws where
  fresh : ∀ g ∈ raws, g.name ∉ seen

theorem acceptableAfter_nil : AcceptableAfter seen [] :=
  ⟨⟨List.forall_mem_nil _, List.nodup_nil⟩, List.forall_mem_nil _⟩

theorem acceptableAfter_cons : AcceptableAfter seen (g :: raws) ↔
    ((∀ c ∈ g.cases, c.IsReadable) ∧ g.name ∉ seen) ∧ AcceptableAfter (g.name :: seen) raws := by
  constructor
  · rintro ⟨⟨hreadable, hnodup⟩, hfresh⟩
    obtain ⟨hcases, hreadable⟩ := List.forall_mem_cons.mp hreadable
    obtain ⟨hname, hfresh⟩ := List.forall_mem_cons.mp hfresh
    obtain ⟨hnew, hnodup⟩ := List.nodup_cons.mp hnodup
    refine ⟨⟨hcases, hname⟩, ⟨hreadable, hnodup⟩, ?_⟩
    intro g' hg'
    rw [List.mem_cons, not_or]
    refine ⟨?_, hfresh g' hg'⟩
    intro heq
    exact hnew (List.mem_map.mpr ⟨g', hg', heq⟩)
  · rintro ⟨⟨hcases, hname⟩, ⟨hreadable, hnodup⟩, hfresh⟩
    refine ⟨⟨List.forall_mem_cons.mpr ⟨hcases, hreadable⟩, List.nodup_cons.mpr ⟨?_, hnodup⟩⟩,
      List.forall_mem_cons.mpr ⟨hname, ?_⟩⟩
    · intro hmem
      obtain ⟨g', hg', heq⟩ := List.mem_map.mp hmem
      exact hfresh g' hg' (heq ▸ List.mem_cons_self)
    · intro g' hg' hmem
      exact hfresh g' hg' (List.mem_cons_of_mem _ hmem)

theorem exists_resolveAfter_eq_ok_iff :
    (∃ gs, resolveAfter path seen raws = .ok gs) ↔ AcceptableAfter seen raws := by
  induction raws generalizing seen with
  | nil => exact iff_of_true ⟨[], rfl⟩ acceptableAfter_nil
  | cons g raws ih =>
      rw [acceptableAfter_cons, ← ih]
      by_cases hfine : (∀ c ∈ g.cases, c.IsReadable) ∧ g.name ∉ seen
      · obtain ⟨cases, hcases⟩ := exists_resolveCases_eq_ok_iff.mpr hfine.1
        rw [resolveAfter_cons_of_fresh hcases hfine.2, and_iff_right hfine]
        cases resolveAfter path (g.name :: seen) raws <;> simp [Except.map]
      · obtain ⟨e, h⟩ := exists_offends_iff.mpr hfine
        rw [resolveAfter_cons_of_offends h]
        exact iff_of_false (by simp) fun hall => hfine hall.1

/-- **The first group that offends decides the error.** -/
theorem resolveAfter_eq_error_iff : resolveAfter path seen raws = .error e ↔
    ∃ before g after, raws = before ++ g :: after ∧ AcceptableAfter seen before ∧
      Offends path (before.map (·.name) ++ seen) g e := by
  induction raws generalizing seen with
  | nil =>
      refine iff_of_false (by simp [resolveAfter]) ?_
      rintro ⟨before, g, after, heq, -⟩
      simp at heq
  | cons g raws ih =>
      rw [resolveAfter_cons_eq_error_iff, ih]
      constructor
      · rintro (h | ⟨hfine, before, g', after, rfl, hbefore, h⟩)
        · exact ⟨[], g, raws, rfl, acceptableAfter_nil, h⟩
        · refine ⟨g :: before, g', after, rfl, acceptableAfter_cons.mpr ⟨hfine, hbefore⟩, ?_⟩
          exact h.congr (by simp [or_left_comm])
      · rintro ⟨before, g', after, heq, hbefore, h⟩
        cases before with
        | nil =>
            obtain ⟨rfl, rfl⟩ := List.cons.inj heq
            exact .inl h
        | cons b before =>
            obtain ⟨rfl, rfl⟩ := List.cons.inj heq
            obtain ⟨hfine, hbefore⟩ := acceptableAfter_cons.mp hbefore
            exact .inr ⟨hfine, before, g', after, rfl, hbefore, h.congr (by simp [or_left_comm])⟩

/-- **What becomes of a document** whose groups are decoded: it is accepted exactly if no group offends, and
otherwise the first group that does decides the error. -/
theorem parse_first_offence (path content : String) :
    match decoder.decode content.toList with
    | .error fault => parse path content = .error (.document path fault)
    | .ok raws =>
      ((∃ gs, parse path content = .ok gs) ↔ Acceptable raws) ∧
      ∀ e, parse path content = .error e ↔ ∃ before g after, raws = before ++ g :: after ∧
        Acceptable before ∧ Offends path (before.map (·.name)) g e := by
  cases hdecode : decoder.decode content.toList with
  | error fault =>
      unfold parse
      rw [hdecode]
      rfl
  | ok raws =>
      have hparse : parse path content = resolveAfter path [] raws := by
        unfold parse
        rw [hdecode]
        rfl
      have hfront : ∀ before, AcceptableAfter [] before ↔ Acceptable before := fun before =>
        ⟨fun h => h.toAcceptable, fun h => ⟨h, fun _ _ => List.not_mem_nil⟩⟩
      rw [hparse]
      refine ⟨exists_resolveAfter_eq_ok_iff.trans (hfront raws), fun e => ?_⟩
      simp only [resolveAfter_eq_error_iff, List.append_nil, hfront]

end HalConstants.EnumDocument
