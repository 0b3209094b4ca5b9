import HalConstants.Files.Tree

/-!
# Places of paths, and what a request changes

The place of a path is told by its names alone, also where nothing stands yet: without links, two dots lead
back over the name in front of them. A path that leads anywhere leads to its place
(`eq_location_of_resolve`). `Changes` bounds what a request does to a tree: outside the given places every node
stays, and no directory goes away, so that paths lead where they led. A path whose place is none of these
is left alone.
-/

namespace HalConstants

/-- The names of a path. -/
def Path.names (path : String) : List String :=
  ((path.toList.splitOn '/').filter (!·.isEmpty)).map String.ofList

/-- A path that is looked at at all: it is not empty, not too long, and holds no NUL. -/
def Path.IsRead (path : String) : Prop :=
  '\x00' ∉ path.toList ∧ path.toList ≠ [] ∧ path.utf8ByteSize < Tree.maxPathBytes

/-- The location that a name leads to from a directory. -/
def Location.follow (loc : Location) (name : String) : Location :=
  if name = "." then loc else if name = ".." then loc.dropLast else loc ++ [name]

namespace Tree

variable {t t₁ t' : Tree} {loc l : Location} {names more : List String} {path text name : String}
variable {n : Node} {P Q : Location → Prop}

/-- The location that a path is looked up from. -/
def base (t : Tree) (path : String) : Location :=
  if Path.isAbsoluteChars path.toList then [] else t.workingDirectory

/-- The place of a path. -/
def location (t : Tree) (path : String) : Location :=
  (Path.names path).foldl Location.follow (t.base path)

theorem location_congr (h : t'.workingDirectory = t.workingDirectory) (path : String) :
    t'.location path = t.location path := by
  rw [location, location, base, base, h]

/-! ## Where a path leads -/

theorem walk_cons_eq_ok_iff : t.walk loc (name :: names) = .ok l ↔
    t.node? loc = some .directory ∧ name.utf8ByteSize ≤ maxNameBytes ∧
      t.walk (loc.follow name) names = .ok l := by
  have hdot : ".".utf8ByteSize ≤ maxNameBytes := by decide
  have hdots : "..".utf8ByteSize ≤ maxNameBytes := by decide
  rw [walk.eq_def]
  cases t.node? loc with
  | none => simp
  | some node =>
      cases node with
      | file content => simp
      | directory =>
          simp only [Location.follow, true_and]
          split
          · next h => simp [h, hdot]
          · split
            · next h => simp [h, hdots]
            · split
              · next h => simp [Nat.not_le.mpr h]
              · next h => simp [Nat.not_lt.mp h]

theorem walk_append_eq_ok_iff : t.walk loc (names ++ more) = .ok l ↔
    ∃ l₁, t.walk loc names = .ok l₁ ∧ t.walk l₁ more = .ok l := by
  induction names generalizing loc with
  | nil => simp [walk]
  | cons name names ih =>
      simp only [List.cons_append, walk_cons_eq_ok_iff, ih]
      constructor
      · rintro ⟨hdir, hsize, l₁, hwalk, hmore⟩
        exact ⟨l₁, ⟨hdir, hsize, hwalk⟩, hmore⟩
      · rintro ⟨l₁, ⟨hdir, hsize, hwalk⟩, hmore⟩
        exact ⟨hdir, hsize, l₁, hwalk, hmore⟩

theorem eq_foldl_of_walk (h : t.walk loc names = .ok l) : l = names.foldl Location.follow loc := by
  induction names generalizing loc with
  | nil => exact (Except.ok.inj h).symm
  | cons name names ih => exact ih (walk_cons_eq_ok_iff.mp h).2.2

theorem resolve_eq_ok_iff : t.resolve path = .ok l ↔
    Path.IsRead path ∧ t.walk (t.base path) (Path.names path) = .ok l := by
  have hstart : t.start path =
      if path.toList.contains '\x00' then .error .invalidInput
      else if path.toList.isEmpty then .error .notFound
      else if maxPathBytes ≤ path.utf8ByteSize then .error .invalidFilename
      else .ok (t.base path, Path.names path) := rfl
  rw [resolve, hstart, Path.IsRead]
  split
  · next h => simp_all [bind, Except.bind]
  · split
    · next h => simp_all [bind, Except.bind]
    · split
      · next h => simp [bind, Except.bind, Nat.not_lt.mpr h]
      · next h₁ h₂ h₃ =>
          have hread : '\x00' ∉ path.toList ∧ path.toList ≠ [] ∧ path.utf8ByteSize < maxPathBytes :=
            ⟨by simpa using h₁, by simpa using h₂, Nat.not_le.mp h₃⟩
          simp only [hread, not_false_eq_true, ne_eq, and_self, true_and]
          rfl

/-- **A path that leads anywhere leads to its place.** -/
theorem eq_location_of_resolve (h : t.resolve path = .ok l) : l = t.location path :=
  eq_foldl_of_walk (resolve_eq_ok_iff.mp h).2

/-! ## What a request changes -/

/-- At most the given places differ, and a directory stays one. -/
structure Changes (P : Location → Prop) (t t' : Tree) : Prop where
  workingDirectory : t'.workingDirectory = t.workingDirectory
  elsewhere : ∀ l, ¬ P l → t'.node? l = t.node? l
  directory : ∀ l, t.node? l = some .directory → t'.node? l = some .directory

theorem Changes.refl (P : Location → Prop) (t : Tree) : Changes P t t :=
  ⟨rfl, fun _ _ => rfl, fun _ h => h⟩

theorem Changes.trans (h : Changes P t t₁) (h' : Changes P t₁ t') : Changes P t t' :=
  ⟨h'.workingDirectory.trans h.workingDirectory, fun l hl => (h'.elsewhere l hl).trans (h.elsewhere l hl),
    fun l hl => h'.directory l (h.directory l hl)⟩

theorem Changes.mono (h : Changes P t t') (hPQ : ∀ l, P l → Q l) : Changes Q t t' :=
  ⟨h.workingDirectory, fun l hl => h.elsewhere l (mt (hPQ l) hl), h.directory⟩

theorem changes_put (h : t.node? loc ≠ some .directory) : Changes (· = loc) t (t.put loc n) := by
  have hloc : loc ≠ [] := by
    rintro rfl
    exact h rfl
  refine ⟨rfl, ?_, ?_⟩
  · intro l hl
    rw [node?_put hloc, if_neg hl]
  · intro l hl
    have hne : l ≠ loc := by
      rintro rfl
      exact h hl
    rw [node?_put hloc, if_neg hne, hl]

theorem Changes.walk (hchanges : Changes P t t') (h : t.walk loc names = .ok l) :
    t'.walk loc names = .ok l := by
  induction names generalizing loc with
  | nil => exact h
  | cons name names ih =>
      obtain ⟨hdir, hsize, hwalk⟩ := walk_cons_eq_ok_iff.mp h
      exact walk_cons_eq_ok_iff.mpr ⟨hchanges.directory loc hdir, hsize, ih hwalk⟩

/-- Paths lead where they led. -/
theorem Changes.resolve (hchanges : Changes P t t') (h : t.resolve path = .ok l) :
    t'.resolve path = .ok l := by
  obtain ⟨hread, hwalk⟩ := resolve_eq_ok_iff.mp h
  have hbase : t'.base path = t.base path := by rw [base, base, hchanges.workingDirectory]
  exact resolve_eq_ok_iff.mpr ⟨hread, hbase ▸ hchanges.walk hwalk⟩

/-- A path is left alone: it leads where it led, and what it leads to stood in that place before. -/
structure LeavesAlone (t : Tree) (path : String) (t' : Tree) : Prop where
  leads : ∀ loc, t.resolve path = .ok loc → t'.resolve path = .ok loc
  stands : ∀ loc, t'.resolve path = .ok loc → t'.node? loc = t.node? loc

theorem Changes.leavesAlone (h : Changes P t t') (hpath : ¬ P (t.location path)) :
    LeavesAlone t path t' := by
  refine ⟨fun loc => h.resolve, fun loc hloc => h.elsewhere loc ?_⟩
  rwa [eq_location_of_resolve hloc, location_congr h.workingDirectory]

/-! ## The requests -/

/-- **A write changes its place only**, and the text is read back. -/
theorem changes_writeText (h : t.writeText path text = .ok t') :
    Changes (· = t.location path) t t' ∧ t'.readText path = .ok text := by
  rw [writeText] at h
  split at h
  · -- a path that names a directory is refused in any case
    cases hstart : t.start path with
    | error kind => simp [hstart, bind, Except.bind] at h
    | ok start =>
        cases hwalk : t.walk start.1 (start.2.dropLast ++ ["."]) <;>
          simp [hstart, hwalk, bind, Except.bind] at h
  · next hname =>
      cases hresolve : t.resolve path with
      | error kind => simp [hresolve, bind, Except.bind] at h
      | ok loc =>
          simp only [hresolve, bind, Except.bind] at h
          split at h
          · contradiction
          · next hnode =>
              obtain rfl := Except.ok.inj h
              have hchanges := changes_put (n := .file (.text text)) hnode
              have hloc : loc ≠ [] := by
                rintro rfl
                exact hnode rfl
              refine ⟨eq_location_of_resolve hresolve ▸ hchanges, ?_⟩
              rw [readText, hchanges.resolve hresolve]
              simp [bind, Except.bind, node?_put hloc, hname]

theorem changes_createDirectory (h : t.createDirectory path = .ok t') :
    Changes (· = t.location path) t t' := by
  rw [createDirectory] at h
  cases hresolve : t.resolve path with
  | error kind => simp [hresolve, bind, Except.bind] at h
  | ok loc =>
      simp only [hresolve, bind, Except.bind] at h
      split at h
      · contradiction
      · next hnode =>
          obtain rfl := Except.ok.inj h
          exact eq_location_of_resolve hresolve ▸ changes_put (by simp [hnode])

theorem changes_ensureDirectory (h : t.ensureDirectory path = .ok t') :
    Changes (· = t.location path) t t' := by
  rw [ensureDirectory] at h
  split at h
  · split at h
    · obtain rfl := Except.ok.inj h
      exact .refl _ t
    · contradiction
  · exact changes_createDirectory h

/-- A directory that stands already is good. -/
theorem ensureDirectory_of_isDirectory (h : t.isDirectory path) : t.ensureDirectory path = .ok t := by
  have hcreate : t.createDirectory path = .error .alreadyExists := by
    have h' := h
    rw [isDirectory] at h'
    rw [createDirectory]
    cases hresolve : t.resolve path with
    | error kind => simp [hresolve] at h'
    | ok loc =>
        simp only [hresolve, beq_iff_eq] at h'
        simp [bind, Except.bind, h']
  rw [ensureDirectory, hcreate]
  simp [h]

theorem changes_ensureChain (t : Tree) (paths : List String) :
    Changes (fun l => ∃ p ∈ paths, l = t.location p) t (t.ensureChain paths).2 := by
  induction paths with
  | nil => exact .refl _ t
  | cons path above ih =>
      have hfirst : ∀ t' : Tree, t'.workingDirectory = t.workingDirectory → ∀ t'' : Tree,
          t'.ensureDirectory path = .ok t'' →
          Changes (fun l => ∃ p ∈ path :: above, l = t.location p) t' t'' := by
        intro t' hwd t'' h
        refine (changes_ensureDirectory h).mono ?_
        rintro l rfl
        exact ⟨path, List.mem_cons_self, location_congr hwd path⟩
      have habove : Changes (fun l => ∃ p ∈ path :: above, l = t.location p) t (t.ensureChain above).2 :=
        ih.mono fun l ⟨p, hp, hl⟩ => ⟨p, List.mem_cons_of_mem path hp, hl⟩
      rw [ensureChain]
      split
      · next h => exact hfirst t rfl _ h
      · cases hchain : t.ensureChain above with
        | mk result t₁ =>
            rw [hchain] at habove
            cases result with
            | error kind => exact habove
            | ok u =>
                dsimp only
                split
                · next h => exact habove.trans (hfirst t₁ habove.workingDirectory _ h)
                · exact habove
      · exact .refl _ t

/-- The place of a path or of a path above it. -/
def IsAbove (t : Tree) (path : String) (l : Location) : Prop :=
  ∃ p ∈ Path.ancestors path.toList, l = t.location (String.ofList p)

/-- **Creating directories changes the path and the paths above it only**, also where it fails. -/
theorem changes_createDirectories (t : Tree) (path : String) :
    Changes (t.IsAbove path) t (t.createDirectories path).2 := by
  refine (changes_ensureChain t _).mono ?_
  rintro l ⟨p, hp, rfl⟩
  obtain ⟨a, ha, rfl⟩ := List.mem_map.mp hp
  exact ⟨a, ha, rfl⟩

/-- **Where a chain of directories fails**, one of them still cannot be had afterwards. -/
theorem exists_of_ensureChain_error {paths : List String} {kind : IoKind}
    (h : t.ensureChain paths = (.error kind, t')) :
    ∃ p ∈ paths, ∀ t'', t'.ensureDirectory p ≠ .ok t'' := by
  induction paths with
  | nil => simp [ensureChain] at h
  | cons path above ih =>
      rw [ensureChain] at h
      split at h
      · simp at h
      · cases hchain : t.ensureChain above with
        | mk result t₁ =>
            rw [hchain] at h
            cases result with
            | error kind' =>
                obtain ⟨p, hp, hfail⟩ := ih (hchain.trans h)
                exact ⟨p, List.mem_cons_of_mem path hp, hfail⟩
            | ok u =>
                dsimp only at h
                split at h
                · simp at h
                · next hfail =>
                    obtain ⟨-, rfl⟩ := Prod.mk.inj h
                    exact ⟨path, List.mem_cons_self, fun t'' => by simp [hfail]⟩
      · next hfail =>
          obtain ⟨-, rfl⟩ := Prod.mk.inj h
          exact ⟨path, List.mem_cons_self, fun t'' => by simp [hfail]⟩

end Tree

end HalConstants
