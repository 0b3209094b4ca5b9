import HalConstants.Proofs.Files.Parents
import HalConstants.Proofs.Manifest.Rebase
import HalConstants.Proofs.Pieces

/-!
# Children of a directory

A name without slashes that is joined to a base stands directly below it (`isChild_join`), unless the name is empty
or made of one or two points. The parent of the joined path is the base, up to the slashes and the points that end
a path and mean nothing (`location_trimBackwards`).
-/

namespace HalConstants

variable {p r base : List Char} {name : String}

namespace Path

/-- A name that leads one step down. -/
structure IsFileName (name : String) : Prop where
  ne_empty : name ≠ ""
  ne_point : name ≠ "."
  ne_points : name ≠ ".."
  free : '/' ∉ name.toList

/-- `path` is the place of `name` directly below `base`: the text of the base with at most a slash behind it and
then the name, which is also its last name; from wherever it is looked up, it leads one step down from the base,
and its parent to the base. -/
structure IsChild (base name path : String) : Prop where
  text : path.toList = front base.toList ++ name.toList
  names : names path = names base ++ [name]
  fileName : fileName? path = some name
  location : ∀ t : Tree, t.location path = t.location base ++ [name]
  parent : ∃ above, parent? path = some above ∧ ∀ t : Tree, t.location above = t.location base

theorem IsFileName.isAbsoluteChars (hname : IsFileName name) : isAbsoluteChars name.toList = false := by
  rw [Path.isAbsoluteChars, beq_eq_false_iff_ne]
  exact fun h => hname.free (List.mem_of_mem_head? h)

theorem front_cases (base : List Char) : front base = [] ∧ base = [] ∨
    ∃ b, front base = b ++ ['/'] ∧ (base = b ∧ b ≠ [] ∨ base = b ++ ['/']) := by
  by_cases hbase : base = []
  · exact .inl ⟨by rw [front, if_pos hbase], hbase⟩
  · by_cases hslash : base.getLast? = some '/'
    · obtain ⟨b, rfl⟩ := List.getLast?_eq_some_iff.mp hslash
      exact .inr ⟨b, by rw [front, if_neg hbase, if_pos hslash], .inr rfl⟩
    · exact .inr ⟨base, by rw [front, if_neg hbase, if_neg hslash], .inl ⟨rfl, hbase⟩⟩

theorem names_of_isFileName (h : IsFileName name) : names name = [name] := by
  have hne : name.toList.isEmpty = false := by simpa using h.ne_empty
  rw [names, splitOn_of_notMem h.free, List.filter_cons_of_pos (by simp [hne]), List.filter_nil, List.map_singleton,
    String.ofList_toList]

theorem splitOn_front_append (hp : '/' ∉ p) : ∃ pieces, (front base ++ p).splitOn '/' = pieces ++ [p] := by
  rcases front_cases base with ⟨hfront, -⟩ | ⟨b, hfront, -⟩
  · exact ⟨[], by rw [hfront, List.nil_append, splitOn_of_notMem hp, List.nil_append]⟩
  · refine ⟨b.splitOn '/', ?_⟩
    rw [hfront, List.append_assoc, List.singleton_append, splitOn_append_cons, splitOn_of_notMem hp]

/-! ## Names -/

theorem names_front_append (hname : IsFileName name) :
    names (String.ofList (front base ++ name.toList)) = names (String.ofList base) ++ [name] := by
  have hone : names (String.ofList name.toList) = [name] := by
    rw [String.ofList_toList]
    exact names_of_isFileName hname
  rcases front_cases base with ⟨hfront, rfl⟩ | ⟨b, hfront, ⟨rfl, -⟩ | rfl⟩
  · rw [hfront, List.nil_append, hone]
    rfl
  · rw [hfront, List.append_assoc, List.singleton_append, names_append, hone]
  · have hempty : names (String.ofList (b ++ ['/'])) = names (String.ofList b) := by
      rw [names_append]
      exact List.append_nil _
    rw [hfront, List.append_assoc, List.singleton_append, names_append, hone, hempty]

theorem fileNameChars?_front_append (hname : IsFileName name) :
    fileNameChars? (front base ++ name.toList) = some name.toList := by
  obtain ⟨pieces, hpieces⟩ := splitOn_front_append hname.free
  have hpoint : name.toList ≠ ['.'] := fun h => hname.ne_point (String.toList_inj.mp h)
  have hpoints : name.toList ≠ ['.', '.'] := fun h => hname.ne_points (String.toList_inj.mp h)
  have hnil : name.toList ≠ [] := by simpa using hname.ne_empty
  rw [fileNameChars?, hpieces, List.reverse_append, List.reverse_singleton, List.singleton_append,
    List.find?_cons_of_pos (by simp [hnil, hpoint])]
  simp [hpoints]

/-! ## The parent -/

/-- A text that starts with neither a slash nor a point and a slash is not trimmed. -/
theorem trimBackwards_eq_self (hslash : ∀ cs, r ≠ '/' :: cs) (hpoint : ∀ cs, r ≠ '.' :: '/' :: cs) :
    trimBackwards r = r := by
  fun_cases trimBackwards r with
  | case1 => rfl
  | case2 => rfl
  | case3 cs hcs => exact absurd rfl (hslash cs)
  | case4 cs => exact absurd rfl (hpoint cs)
  | case5 r h₁ h₂ h₃ h₄ => rfl

theorem trimBackwards_of_isFileName (hname : IsFileName name) (r : List Char) :
    trimBackwards (name.toList.reverse ++ r) = name.toList.reverse ++ r := by
  have hfree : '/' ∉ name.toList.reverse := fun h => hname.free (List.mem_reverse.mp h)
  have hnil : name.toList.reverse ≠ [] := by simpa using hname.ne_empty
  have hone : name.toList.reverse ≠ ['.'] := by
    intro h
    apply hname.ne_point
    rw [← String.toList_inj, ← List.reverse_inj, h]
    rfl
  obtain ⟨d, more, hcons⟩ := List.exists_cons_of_ne_nil hnil
  rw [hcons] at hfree hone ⊢
  apply trimBackwards_eq_self
  · intro cs h
    obtain ⟨rfl, -⟩ := List.cons.inj h
    exact hfree (.head more)
  · intro cs h
    obtain ⟨rfl, htail⟩ := List.cons.inj h
    cases more with
    | nil => exact hone rfl
    | cons e more =>
        obtain ⟨rfl, -⟩ := List.cons.inj htail
        exact hfree (.tail _ (.head more))

theorem parentChars?_front_append (hname : IsFileName name) :
    parentChars? (front base ++ name.toList) = some (trimBackwards (front base).reverse).reverse := by
  have hfree : ∀ c ∈ name.toList.reverse, c ≠ '/' := by
    rintro c hc rfl
    exact hname.free (List.mem_reverse.mp hc)
  have hnil : name.toList.reverse ≠ [] := by simpa using hname.ne_empty
  have hfront : (front base).reverse.dropWhile (· != '/') = (front base).reverse := by
    rcases front_cases base with ⟨hempty, -⟩ | ⟨b, hslash, -⟩
    · simp [hempty]
    · simp [hslash]
  have htrim := trimBackwards_of_isFileName hname (front base).reverse
  obtain ⟨d, more, hcons⟩ := List.exists_cons_of_ne_nil hnil
  rw [hcons] at hfree htrim
  rw [parentChars?, List.reverse_append, hcons, htrim]
  have hd : d ≠ '/' := hfree d (.head more)
  have hmore : ∀ c ∈ more, (c != '/') = true := fun c hc => bne_iff_ne.mpr (hfree c (.tail d hc))
  have hdrop : (more ++ (front base).reverse).dropWhile (· != '/') = (front base).reverse := by
    rw [List.dropWhile_append_of_pos hmore, hfront]
  simp [hd, hdrop]

end Path

theorem Location.follow_point (l : Location) : l.follow "." = l := if_pos rfl

theorem Location.follow_of_isFileName (hname : Path.IsFileName name) (l : Location) :
    l.follow name = l ++ [name] := by
  rw [follow, if_neg hname.ne_point, if_neg hname.ne_points]

namespace Tree

theorem base_append (t : Tree) (hp : p ≠ []) (q : List Char) :
    t.base (String.ofList (p ++ q)) = t.base (String.ofList p) := by
  simp only [base, String.toList_ofList, Path.isAbsoluteChars, List.head?_append_of_ne_nil p hp]

theorem location_append_slash (t : Tree) (hp : p ≠ []) :
    t.location (String.ofList (p ++ ['/'])) = t.location (String.ofList p) := by
  have hnames : Path.names (String.ofList []) = [] := rfl
  rw [location, location, base_append t hp, Path.names_append, hnames, List.append_nil]

theorem location_append_point (t : Tree) (p : List Char) :
    t.location (String.ofList (p ++ ['/', '.'])) = t.location (String.ofList (p ++ ['/'])) := by
  have hnames : Path.names (String.ofList []) = [] := rfl
  have hpoint : Path.names (String.ofList ['.']) = ["."] := rfl
  have hbase : t.base (String.ofList (p ++ ['/', '.'])) = t.base (String.ofList (p ++ ['/'])) := by
    rw [← base_append t (p := p ++ ['/']) (by simp) ['.'], List.append_assoc, List.singleton_append]
  rw [location, location, hbase, Path.names_append, Path.names_append, hnames, hpoint, List.append_nil,
    List.foldl_append, List.foldl_cons, Location.follow_point, List.foldl_nil]

/-- **What a path is trimmed by means nothing.** -/
theorem location_trimBackwards (t : Tree) (r : List Char) :
    t.location (String.ofList (Path.trimBackwards r).reverse) = t.location (String.ofList r.reverse) := by
  fun_induction Path.trimBackwards r with
  | case1 => rfl
  | case2 => rfl
  | case3 cs hcs ih =>
      have hne : cs.reverse ≠ [] := mt List.reverse_eq_nil_iff.mp hcs
      rw [ih, List.reverse_cons, location_append_slash t hne]
  | case4 cs ih =>
      rw [ih, List.reverse_cons, List.reverse_cons, List.reverse_cons, List.append_assoc, List.singleton_append,
        location_append_point]
  | case5 cs h₁ h₂ h₃ h₄ => rfl

theorem location_front (t : Tree) (base : List Char) :
    t.location (String.ofList (Path.front base)) = t.location (String.ofList base) := by
  rcases Path.front_cases base with ⟨hfront, rfl⟩ | ⟨b, hfront, ⟨rfl, hb⟩ | rfl⟩
  · rw [hfront]
  · rw [hfront, location_append_slash t hb]
  · rw [hfront]

theorem location_front_append (t : Tree) (hname : Path.IsFileName name) (base : List Char) :
    t.location (String.ofList (Path.front base ++ name.toList)) = t.location (String.ofList base) ++ [name] := by
  have hbase : t.base (String.ofList (Path.front base ++ name.toList)) = t.base (String.ofList base) := by
    simp only [Tree.base, String.toList_ofList, Path.isAbsoluteChars_front_append hname.isAbsoluteChars]
  rw [location, location, hbase, Path.names_front_append hname, List.foldl_append, List.foldl_cons,
    Location.follow_of_isFileName hname, List.foldl_nil]

end Tree

/-- **A name joined to a base is a child of it.** -/
theorem Path.isChild_join (hname : Path.IsFileName name) (base : String) :
    Path.IsChild base name (Path.join base name) := by
  have hjoin : Path.join base name = String.ofList (front base.toList ++ name.toList) := by
    rw [Path.join, joinChars_eq, hname.isAbsoluteChars, if_neg Bool.false_ne_true]
  have hbase : String.ofList base.toList = base := String.ofList_toList
  rw [hjoin]
  constructor
  · rw [String.toList_ofList]
  · rw [names_front_append hname, hbase]
  · rw [fileName?, String.toList_ofList, fileNameChars?_front_append hname, Option.map_some, String.ofList_toList]
  · intro t
    rw [t.location_front_append hname, hbase]
  · refine ⟨String.ofList (trimBackwards (front base.toList).reverse).reverse, ?_, ?_⟩
    · rw [parent?, String.toList_ofList, parentChars?_front_append hname, Option.map_some]
    · intro t
      rw [t.location_trimBackwards, List.reverse_reverse, t.location_front, hbase]

end HalConstants
