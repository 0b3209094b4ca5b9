import HalConstants.Proofs.Code.Steps
import HalConstants.Proofs.Target.PythonLines
import HalConstants.Proofs.Text.Bytes

/-!
# Columns of a Python class

The lines of an attribute are told by themselves: the name, spaces up to the common width, the bracket behind the
equals sign, and then the items in order (`Tabulated`). The width is a number of bytes, so that every name has at
most as many characters, and spaces up to it bring all equals signs into one column. The margin of the further
items has one space for each byte in front of the first item. It ends where that item starts if every character
has one byte, and further to the right otherwise.
-/

namespace HalConstants

/-! ## Spaces -/

theorem Row.length_spaces (n : Nat) : (spaces n).length = n := by
  rw [spaces, ← String.length_toList, String.toList_ofList, List.length_replicate]

theorem Row.utf8ByteSize_spaces (n : Nat) : (spaces n).utf8ByteSize = n := by
  have hascii : Text.IsAscii (spaces n) := by
    intro c hc
    rw [spaces, String.toList_ofList] at hc
    rw [List.eq_of_mem_replicate hc]
    decide
  rw [(Text.utf8ByteSize_eq_length_iff _).mpr hascii, length_spaces]

namespace Python

variable {width i : Nat} {name margin item : String} {items : List String} {c : Class}

/-! ## The lines of an attribute -/

/-- The name of an attribute up to the bracket that opens its list. -/
def opening (width : Nat) (name : String) : String := name ++ Row.spaces (width - name.length) ++ " = ["

/-- What stands in front of the items of an attribute, one after the other. -/
def lead (width : Nat) (name : String) : Nat → String
  | 0 => opening width name
  | _ + 1 => Row.spaces (width + 4 + (name.utf8ByteSize - name.length))

/-- What stands behind the item with an index. -/
def closing (items : List String) (i : Nat) : String := if i + 1 = items.length then "]" else ","

/-- The lines of an attribute whose name stands in a column of some width. -/
structure Tabulated (width : Nat) (name : String) (items lines : List String) : Prop where
  fits : name.length ≤ width
  sign : ∃ first more, lines = first :: more ∧ first.toList[width + 1]? = some '='
  void : items = [] → lines = [opening width name ++ "]"]
  length_eq : items ≠ [] → lines.length = items.length
  line_eq : ∀ i item, items[i]? = some item →
    lines[i]? = some (lead width name i ++ item ++ closing items i)
  aligned : ∀ i, (lead width name (i + 1)).length = (lead width name 0).length ↔ Text.IsAscii name

theorem opening_eq (width : Nat) (name : String) : padded width name ++ " = [" = opening width name := by
  rw [padded, pushn_eq_spaces, opening]

theorem length_opening (h : name.length ≤ width) : (opening width name).length = width + 4 := by
  have hsign : " = [".length = 4 := rfl
  rw [opening, String.length_append, String.length_append, Row.length_spaces, hsign]
  omega

theorem utf8ByteSize_opening (h : name.length ≤ width) :
    (opening width name).utf8ByteSize = width + 4 + (name.utf8ByteSize - name.length) := by
  have hsign : " = [".utf8ByteSize = 4 := rfl
  have hle := Text.length_le_utf8ByteSize name
  rw [opening, String.utf8ByteSize_append, String.utf8ByteSize_append, Row.utf8ByteSize_spaces, hsign]
  omega

/-- **The equals sign** stands one character behind the column of the names. -/
theorem sign_opening (h : name.length ≤ width) (rest : String) :
    (opening width name ++ rest).toList[width + 1]? = some '=' := by
  have hfront : (name ++ Row.spaces (width - name.length) ++ " ").toList.length = width + 1 := by
    rw [String.length_toList, String.length_append, String.length_append, Row.length_spaces]
    show name.length + (width - name.length) + 1 = width + 1
    omega
  have hsplit : opening width name ++ rest =
      name ++ Row.spaces (width - name.length) ++ " " ++ ("= [" ++ rest) := by
    rw [opening]
    simp only [String.append_assoc]
    rfl
  have htail : ("= [" ++ rest).toList = '=' :: ' ' :: '[' :: rest.toList := String.toList_append
  rw [hsplit, String.toList_append, htail, List.getElem?_append_right (Nat.le_of_eq hfront), hfront, Nat.sub_self]
  rfl

theorem closing_zero (item : String) (items : List String) :
    closing (item :: items) 0 = if items = [] then "]" else "," := by
  cases items with
  | nil => rfl
  | cons next items =>
      rw [closing, if_neg (List.cons_ne_nil next items), if_neg]
      simp

theorem closing_cons (item : String) (items : List String) (i : Nat) :
    closing (item :: items) (i + 1) = closing items i := by
  rw [closing, closing, List.length_cons]
  exact if_congr Nat.succ_inj rfl rfl

theorem length_continuation (margin : String) (items : List String) :
    (continuation margin items).length = items.length := by
  fun_induction continuation margin items with
  | case1 => rfl
  | case2 item => rfl
  | case3 item items _ ih => rw [List.length_cons, List.length_cons, ih]

theorem getElem?_continuation (h : items[i]? = some item) :
    (continuation margin items)[i]? = some (margin ++ item ++ closing items i) := by
  fun_induction continuation margin items generalizing i with
  | case1 => contradiction
  | case2 only =>
      cases i with
      | zero =>
          obtain rfl : only = item := Option.some.inj h
          rfl
      | succ i => contradiction
  | case3 first items hne ih =>
      cases i with
      | zero =>
          obtain rfl : first = item := Option.some.inj h
          rw [closing_zero, if_neg hne]
          rfl
      | succ i =>
          rw [closing_cons]
          exact ih h

theorem attributeLines_nil (width : Nat) (name : String) :
    attributeLines width name [] = [opening width name ++ "]"] := by
  rw [attributeLines, opening_eq]

theorem attributeLines_cons (width : Nat) (name item : String) (items : List String) :
    attributeLines width name (item :: items) = (opening width name ++ item ++ closing (item :: items) 0) ::
      continuation (Row.spaces (opening width name).utf8ByteSize) items := by
  cases items with
  | nil =>
      rw [attributeLines, opening_eq]
      rfl
  | cons next items =>
      rw [attributeLines, opening_eq, pushn_eq_spaces, String.empty_append, closing_zero, if_neg]
      · simp
      · simp

/-- **The lines of an attribute** whose name has no more bytes than the column. -/
theorem tabulated_attributeLines (h : name.utf8ByteSize ≤ width) (items : List String) :
    Tabulated width name items (attributeLines width name items) := by
  have hle := Text.length_le_utf8ByteSize name
  have hfits : name.length ≤ width := hle.trans h
  have haligned : ∀ i, (lead width name (i + 1)).length = (lead width name 0).length ↔ Text.IsAscii name := by
    intro i
    rw [lead, lead, Row.length_spaces, length_opening hfits, ← Text.utf8ByteSize_eq_length_iff]
    omega
  cases items with
  | nil =>
      rw [attributeLines_nil]
      exact ⟨hfits, ⟨_, [], rfl, sign_opening hfits "]"⟩, fun _ => rfl, fun hne => absurd rfl hne,
        fun i item hitem => by contradiction, haligned⟩
  | cons first items =>
      have hmargin := utf8ByteSize_opening hfits
      rw [attributeLines_cons, hmargin]
      refine ⟨hfits, ⟨_, _, rfl, ?_⟩, fun hnil => by contradiction, ?_, ?_, haligned⟩
      · rw [String.append_assoc]
        exact sign_opening hfits _
      · intro _
        rw [List.length_cons, length_continuation, List.length_cons]
      · intro i item hitem
        cases i with
        | zero =>
            obtain rfl : first = item := Option.some.inj hitem
            rfl
        | succ i =>
            rw [closing_cons]
            exact getElem?_continuation hitem

/-! ## The lines of a class -/

theorem Class.le_width {row : String × List String} (h : row ∈ c.attributes) :
    row.1.utf8ByteSize ≤ c.width := by
  have hmax : (0 :: c.attributes.map (·.1.utf8ByteSize)).max? = some c.width := List.max?_cons'
  have hmem : row.1.utf8ByteSize ∈ c.attributes.map (·.1.utf8ByteSize) := List.mem_map_of_mem h
  exact (List.max?_eq_some_iff.mp hmax).2 _ (List.mem_cons_of_mem 0 hmem)

theorem Class.rows_fragments (c : Class) : Fragment.rowsOfAll 0 c.fragments =
    .code 0 s!"class {c.name}:" :: c.bodyLines.map (.code 1) := by
  have hbody : Fragment.rowsOfAll 1 (c.bodyLines.map .line) = c.bodyLines.map (.code 1) :=
    Fragment.rowsOfAll_map_line 1 id c.bodyLines
  rw [fragments, Fragment.rowsOfAll, Fragment.rows, hbody, Fragment.rowsOfAll, List.append_nil]
  exact List.append_nil _

theorem attributeLines_ne_nil : attributeLines width name items ≠ [] := by
  cases items with
  | nil => exact List.cons_ne_nil _ _
  | cons item items =>
      rw [attributeLines_cons]
      exact List.cons_ne_nil _ _

theorem Class.bodyLines_eq (c : Class) : c.bodyLines = if c.attributes = [] then ["pass"]
    else c.attributes.flatMap fun row => attributeLines c.width row.1 row.2 := by
  rw [bodyLines]
  by_cases hc : c.attributes = []
  · rw [hc]
    rfl
  · obtain ⟨row, more, hrows⟩ := List.exists_cons_of_ne_nil hc
    have hne : (c.attributes.flatMap fun row => attributeLines c.width row.1 row.2) ≠ [] := by
      rw [hrows, List.flatMap_cons]
      exact List.append_ne_nil_of_left_ne_nil attributeLines_ne_nil _
    rw [if_neg hc]
    split
    · next hnil => exact absurd hnil hne
    · rfl

/-- **The attributes of a class line up.** Wherever a class is written, its header is followed by the lines of its
attributes one level deeper, or by `pass` if there are none. All equals signs stand one behind the common width,
in which every name has room, the items of each attribute follow in order, and further items start below
the first one exactly if the name is of ASCII characters. -/
theorem columns_of_class (c : Class) (b : Builder) (h : c.AttributesAreLines) :
    ∃ blocks : List (List String),
      List.Forall₂ (fun row lines => Tabulated c.width row.1 row.2 lines) c.attributes blocks ∧
      (∀ lines ∈ blocks, ∀ line ∈ lines, IsLine line) ∧
      (b.emit c.fragments).text = b.text ++ Row.printAll b.layout b.level
        (.code 0 s!"class {c.name}:" ::
          (if c.attributes = [] then ["pass"] else blocks.flatten).map (.code 1)) := by
  refine ⟨c.attributes.map fun row => attributeLines c.width row.1 row.2, ?_, ?_, ?_⟩
  · rw [List.forall₂_map_right_iff, List.forall₂_same]
    exact fun row hrow => tabulated_attributeLines (c.le_width hrow) row.2
  · rw [List.forall_mem_map]
    exact fun row hrow => isLine_attributeLines (h row hrow).1 (h row hrow).2
  · rw [Builder.emit_eq_rows, c.rows_fragments, c.bodyLines_eq, List.flatMap_def]

/-- Lists of none, one and three items, and a name with a character of two bytes. -/
def accented : Class := ⟨"types", [("A", []), ("É", ["X", "Y"]), ("LONG", ["P", "= [", "Q, R"]), ("B", ["Z"])]⟩

theorem columns_of_class_accented :
    accented.AttributesAreLines ∧
    layout.render accented.fragments = unlines ["class types:",
      "    A    = []",
      "    É    = [X,",
      "             Y]",
      "    LONG = [P,",
      "            = [,",
      "            Q, R]",
      "    B    = [Z]"] ∧
    ∃ blocks : List (List String),
      List.Forall₂ (fun row lines => Tabulated accented.width row.1 row.2 lines) accented.attributes blocks ∧
      layout.render accented.fragments =
        Row.printAll layout 0 (.code 0 "class types:" :: blocks.flatten.map (.code 1)) := by
  have hlines : accented.AttributesAreLines := by decide
  obtain ⟨blocks, hblocks, -, htext⟩ := columns_of_class accented { layout := layout } hlines
  rw [if_neg (by decide)] at htext
  exact ⟨hlines, by decide +kernel, blocks, hblocks, htext.trans String.empty_append⟩

end Python

end HalConstants
