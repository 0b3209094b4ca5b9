import HalConstants.Proofs.Target.JavaIdentifiers
import HalConstants.Proofs.Target.JavaLines
import Mathlib.Data.List.SplitBy

/-!
# The heading of the Java constants class

Two lines of a document hold names from outside: the one of the package and the first one of the class. An accepted
name is a single token there, and an accepted package name its segments with points between them, so these lines
are tokenized in one way only (`tokens_packageLine`, `tokens_classLine`). Neither line is broken up, and whatever
the two names are, all other lines of the document are the same (`linesOf_document`).
-/

namespace HalConstants

variable {s : String} {as bs : List String}

/-! ## Lines -/

theorem linesOf_append_newline (a b : String) : linesOf (a ++ "\n" ++ b) = linesOf a ++ linesOf b := by
  have hbreak : (a ++ "\n" ++ b).toList = a.toList ++ '\n' :: b.toList := by simp
  rw [linesOf, hbreak, splitOn_append_cons, List.map_append]
  rfl

theorem linesOf_of_isLine (h : IsLine s) : linesOf s = [s] := by
  rw [linesOf, splitOn_of_notMem h, List.map_singleton, String.ofList_toList]

theorem linesOf_unlines_append (as bs : List String) :
    linesOf (unlines (as ++ bs)) = as.flatMap linesOf ++ linesOf (unlines bs) := by
  induction as with
  | nil => rfl
  | cons a as ih =>
      have hcons : unlines (a :: (as ++ bs)) = a ++ "\n" ++ unlines (as ++ bs) := by
        rw [unlines, List.map_cons, String.join_cons]
        rfl
      rw [List.cons_append, hcons, linesOf_append_newline, ih, List.flatMap_cons, List.append_assoc]

theorem flatMap_linesOf (h : ∀ a ∈ as, IsLine a) : as.flatMap linesOf = as := by
  induction as with
  | nil => rfl
  | cons a as ih =>
      obtain ⟨ha, has⟩ := List.forall_mem_cons.mp h
      rw [List.flatMap_cons, linesOf_of_isLine ha, ih has, List.singleton_append]

namespace Java

variable {o : Options} {m : Model} {c d : Char} {cs ds rest : List Char} {segments : List (List Char)}
variable {package className : String}

def packageLine (package : String) : String := "package " ++ package ++ ";"

/-! ## Tokens -/

/-- The tokens of a text: its longest runs of name characters, and its other characters one by one, but no blanks. -/
def tokens (cs : List Char) : List (List Char) :=
  (cs.splitBy fun c d => isNameChar c && isNameChar d).filter (·.all Text.isInk)

theorem tokens_append_mark (cs ds : List Char) (hd : isNameChar d = false) :
    tokens (cs ++ d :: ds) = tokens cs ++ tokens (d :: ds) := by
  have hbreak : ∀ c ∈ cs.getLast?, (isNameChar c && isNameChar d) = false := by
    intro c hc
    rw [hd, Bool.and_false]
  rw [tokens, List.splitBy_append_cons ds hbreak, List.filter_append]
  rfl

/-- A mark is a token of its own, or none if it is blank. -/
theorem tokens_mark (cs ds : List Char) (hd : isNameChar d = false) :
    tokens (cs ++ d :: ds) = tokens cs ++ (tokens [d] ++ tokens ds) := by
  have hbreak : ∀ c ∈ [d].getLast?, ∀ e ∈ ds.head?, (isNameChar c && isNameChar e) = false := by
    intro c hc e he
    obtain rfl : d = c := Option.some.inj hc
    rw [hd, Bool.false_and]
  have hmark : tokens ([d] ++ ds) = tokens [d] ++ tokens ds := by
    rw [tokens, List.splitBy_append hbreak, List.filter_append]
    rfl
  rw [tokens_append_mark _ _ hd, ← hmark]
  rfl

theorem tokens_of_isName (h : IsName cs) : tokens cs = [cs] := by
  obtain ⟨hne, hnamed⟩ := h
  have hchain : cs.IsChain fun c d => isNameChar c && isNameChar d := by
    apply List.Pairwise.isChain
    apply List.pairwise_of_forall_mem_list
    intro c hc d hd
    rw [hnamed c hc, hnamed d hd]
    rfl
  have hink : cs.all Text.isInk := List.all_eq_true.mpr fun c hc => isInk_of_isNameChar (hnamed c hc)
  rw [tokens, List.splitBy_of_isChain hne hchain]
  simp [hink]

/-- Names with points between them are tokenized into just these. -/
theorem tokens_intercalate (hne : segments ≠ []) (h : ∀ segment ∈ segments, IsName segment)
    (hd : isNameChar d = false) (ds : List Char) :
    tokens (['.'].intercalate segments ++ d :: ds) = segments.intersperse ['.'] ++ tokens (d :: ds) := by
  induction segments with
  | nil => contradiction
  | cons segment more ih =>
      obtain ⟨hsegment, hmore⟩ := List.forall_mem_cons.mp h
      cases more with
      | nil =>
          rw [List.intercalate_singleton, tokens_append_mark _ _ hd, tokens_of_isName hsegment]
          rfl
      | cons next more =>
          have hpoint : isNameChar '.' = false := by decide +kernel
          have htoken : tokens ['.'] = [['.']] := by decide +kernel
          rw [List.intercalate_cons_cons, List.append_assoc, List.append_assoc, List.singleton_append,
            tokens_mark _ _ hpoint, ih (List.cons_ne_nil next more) hmore, tokens_of_isName hsegment, htoken,
            List.intersperse_cons_cons]
          rfl

theorem tokens_space (cs ds : List Char) : tokens (cs ++ ' ' :: ds) = tokens cs ++ tokens ds := by
  have hspace : isNameChar ' ' = false := by decide +kernel
  have hnone : tokens [' '] = [] := by decide +kernel
  rw [tokens_mark _ _ hspace, hnone, List.nil_append]

/-- **The line of the package** holds the segments of its name and the points between them. -/
theorem tokens_packageLine (h : packageFault? package.toList = none)
    (hpieces : Pieces '.' package.toList segments) :
    tokens (packageLine package).toList = "package".toList :: segments.intersperse ['.'] ++ [[';']] := by
  have hline : (packageLine package).toList =
      "package".toList ++ ' ' :: (['.'].intercalate segments ++ ';' :: []) := by
    rw [hpieces.joined]
    simp [packageLine]
  have hmark : isNameChar ';' = false := by decide +kernel
  have hword : tokens "package".toList = ["package".toList] := by decide +kernel
  have hend : tokens [';'] = [[';']] := by decide +kernel
  rw [hline, tokens_space, tokens_intercalate hpieces.ne_nil (isName_of_packageFault? h hpieces) hmark, hword, hend]
  rfl

/-- **The first line of the class** holds its name as one token. -/
theorem tokens_classLine (h : identifierFault? className.toList = none) :
    tokens (classHeader false className).toList =
      ["public".toList, "class".toList, className.toList, ['\x7b']] := by
  have hline : (classHeader false className).toList =
      "public class".toList ++ ' ' :: (className.toList ++ ' ' :: ['\x7b']) := by
    simp [classHeader]
  have hwords : tokens "public class".toList = ["public".toList, "class".toList] := by decide +kernel
  have hend : tokens ['\x7b'] = [['\x7b']] := by decide +kernel
  rw [hline, tokens_space, tokens_space, tokens_of_isName (isName_of_identifierFault? h), hwords, hend]
  rfl

/-! ## The document -/

theorem isLine_of_packageFault? (h : packageFault? package.toList = none) : IsLine package := by
  intro hmem
  have hblank : Text.isInk '\n' = false := rfl
  rcases eq_or_isNameChar_of_packageFault? h hmem with hpoint | hname
  · exact absurd hpoint (by decide)
  · exact Bool.false_ne_true (hblank.symm.trans (isInk_of_isNameChar hname))

theorem isLine_of_identifierFault? (h : identifierFault? className.toList = none) : IsLine className := by
  intro hmem
  have hblank : Text.isBlank '\n' = true := rfl
  exact Bool.false_ne_true (((keeps_of_identifierFault? h).ink _ hmem).symm.trans hblank)

/-- The lines in front of the one of the package. -/
def preamble (o : Options) : List String :=
  layout.linesOfAll 0 ({ year := o.year : License }.fragments .slash ++
    [.blank, .comment s!"Autogenerated from {o.sourceLabel}. Do not modify manually.", .blank])

theorem linesOfAll_document (o : Options) (m : Model) :
    layout.linesOfAll 0 (fragments o m) = preamble o ++
      ([packageLine o.package, "", classHeader false o.className] ++ (memberLines o m ++ ["\x7d"])) := by
  have hmargin : ∀ text, layout.margin 0 ++ text = text := fun text => String.empty_append
  have hfront : front o = preamble o ++ [packageLine o.package, "", classHeader false o.className] := by
    simp only [front, preamble, Layout.linesOfAll_append, Layout.linesOfAll, Layout.lines, hmargin]
    simp [packageLine, ToString.toString]
  rw [linesOfAll_fragments, hfront, hmargin]
  simp only [List.append_assoc, List.cons_append, List.nil_append]

/-- **Names change their lines only.** -/
theorem linesOf_document (o : Options) (m : Model) : ∃ before after : List String, ∀ package className,
    packageFault? package.toList = none → identifierFault? className.toList = none →
      linesOf (document { o with package, className } m).text =
        before ++ packageLine package :: "" :: classHeader false className :: after := by
  refine ⟨(preamble o).flatMap linesOf, linesOf (unlines (memberLines o m ++ ["\x7d"])), ?_⟩
  intro package className hpackage hclass
  have hpackageLine : IsLine (packageLine package) := by
    have hparts : IsLine "package " ∧ IsLine ";" := ⟨isLine_ofList (by decide), isLine_ofList (by decide)⟩
    exact isLine_append (isLine_append hparts.1 (isLine_of_packageFault? hpackage)) hparts.2
  have hclassLine : IsLine (classHeader false className) := by
    have hparts : IsLine "public class " ∧ IsLine " \x7b" := ⟨isLine_ofList (by decide), isLine_ofList (by decide)⟩
    exact isLine_append (isLine_append hparts.1 (isLine_of_identifierFault? hclass)) hparts.2
  have hheading : ∀ s ∈ [packageLine package, "", classHeader false className], IsLine s := by
    simp only [List.forall_mem_cons, List.not_mem_nil, false_implies, implies_true, and_true]
    exact ⟨hpackageLine, isLine_ofList List.not_mem_nil, hclassLine⟩
  have htext : (document { o with package, className } m).text = unlines (preamble o ++
      ([packageLine package, "", classHeader false className] ++ (memberLines o m ++ ["\x7d"]))) := by
    have hpreamble : preamble { o with package, className } = preamble o := rfl
    have hmembers : memberLines { o with package, className } m = memberLines o m := rfl
    show layout.render (fragments _ m) = _
    rw [Layout.render_eq, linesOfAll_document, hpreamble, hmembers]
  rw [htext, linesOf_unlines_append, linesOf_unlines_append, flatMap_linesOf hheading]
  rfl

end Java

end HalConstants
