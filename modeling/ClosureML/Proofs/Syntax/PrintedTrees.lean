import ClosureML.Proofs.Machine.Fields
import ClosureML.Proofs.Syntax.NamedFields
import ClosureML.Proofs.Syntax.RoundTrip
import ClosureML.Proofs.Syntax.TypeTexts
import ClosureML.Proofs.Types.StampedTree
import ClosureML.Syntax.Printer

/-!
# Printed trees tell trees apart

In a printed tree the children of a node stand under it, one after the other and without the names
of their fields, and what is missing is written `_` wherever it is missing. Still a printed tree can
be read in one way only. A line is read from its kind on, which says what leaves follow and of what
sorts; a block of lines is read from its first line on, and ends in front of the next line that is
indented less. So two trees are printed alike exactly when they are the same up to positions.

* `Node.leaves`: the leaves of a node with their names;
* `Node.IsPrintable`: the names and types of a node can be told from what stands around them;
* `Node.fill`: the fields that leaves and subtrees make up;
* `Node.block`: the characters of a tree at some depth.

Main statements: `Leaf.append_inj`, `Node.header_inj` and `Node.readsBlock` (a leaf, a line and a
block can be read in one way), and `Node.print_plain_eq_iff`.
-/

namespace ClosureML

/-! ## 1. Parts of a line -/

/-- A text without blanks. -/
def IsUnbroken (text : String) : Prop := ∀ c ∈ text.toList, isBlank c = false

instance (text : String) : Decidable (IsUnbroken text) :=
  decidable_of_iff (text.toList.all (!isBlank ·) = true) (by simp [IsUnbroken])

theorem IsItem.isUnbroken {text : String} (h : IsItem text) : IsUnbroken text :=
  fun _ hc => h.not_isBlank hc

/-- What stands behind a part of a line: the end of the line, or a blank and the next part, which
    does not begin like an arrow. -/
inductive EndsPart : List Char → Prop where
  | line (cs : List Char) : EndsPart ('\n' :: cs)
  | part {c : Char} {cs : List Char} (h : c ≠ '-') : EndsPart (' ' :: c :: cs)

namespace EndsPart

variable {rest : List Char}

theorem blank (h : EndsPart rest) : ∀ c ∈ rest.head?, (!isBlank c) = false := by
  cases h with
  | line | part => exact fun c hc => Option.some.inj hc ▸ rfl

theorem closesType (h : EndsPart rest) : ClosesType rest := by
  cases h with
  | line => exact ⟨fun c hc => Option.some.inj hc ▸ rfl, nofun⟩
  | part hc =>
    refine ⟨fun c hc => Option.some.inj hc ▸ rfl, fun cs h => ?_⟩
    exact hc (List.cons.inj (List.cons.inj h).2).1

end EndsPart

/-- **A text without blanks** reaches as far as its part of the line does. -/
theorem IsUnbroken.append_inj {x y : String} {rest rest' : List Char} (hx : IsUnbroken x)
    (hy : IsUnbroken y) (hrest : EndsPart rest) (hrest' : EndsPart rest')
    (h : x.toList ++ rest = y.toList ++ rest') : x = y ∧ rest = rest' := by
  obtain ⟨htext, hrest⟩ := append_inj_of_class (p := fun c => !isBlank c)
    (fun c hc => by rw [hx c hc, Bool.not_false]) (fun c hc => by rw [hy c hc, Bool.not_false])
    hrest.blank hrest'.blank h
  exact ⟨String.toList_inj.1 htext, hrest⟩

/-- A list whose first member is of a class. -/
theorem exists_cons_of_any_head? {p : Char → Bool} {cs : List Char} (h : cs.head?.any p = true) :
    ∃ d ds, cs = d :: ds ∧ p d = true := by
  cases cs with
  | nil => cases h
  | cons d ds => exact ⟨d, ds, rfl, h⟩

/-! ## 2. Words that leaves are written as -/

/-- Written forms from which their members can be found are different. -/
theorem eq_of_ofText? {α : Type} {text : α → String} {ofText? : String → Option α}
    (h : ∀ a, ofText? (text a) = some a) {a b : α} (heq : text a = text b) : a = b :=
  Option.some.inj (by rw [← h a, heq, h b])

/-- No integer is written as a text that is no number. -/
theorem toString_int_ne (text : String) (h : toString (signedDecimal text) ≠ text) (n : Int) :
    toString n ≠ text := by
  rintro rfl
  exact h (by rw [signedDecimal_toString])

theorem isUnbroken_nat (n : Nat) : IsUnbroken (toString n) := (IsItem.nat n).isUnbroken

namespace Literal

theorem isUnbroken_text : ∀ v : Literal, IsUnbroken v.text
  | integer n => (IsItem.int n).isUnbroken
  | boolean true => by decide
  | boolean false => by decide
  | unit => by decide

/-- **The written form of a literal** tells it apart. -/
theorem text_inj {v w : Literal} (h : v.text = w.text) : v = w := by
  have hinteger : ∀ {n : Int} {u : Literal}, (integer n).text = u.text → integer n = u := by
    intro n u h
    cases u with
    | integer k =>
      have hsame : toString n = toString k := h
      rw [← signedDecimal_toString n, hsame, signedDecimal_toString]
    | boolean b =>
      cases b with
      | true => exact absurd h (toString_int_ne "true" (by decide +kernel) n)
      | false => exact absurd h (toString_int_ne "false" (by decide +kernel) n)
    | unit => exact absurd h (toString_int_ne "()" (by decide +kernel) n)
  have hboolean : ∀ {b b' : Bool}, (boolean b).text = (boolean b').text → b = b' := by decide
  have hunit : ∀ {b : Bool}, (boolean b).text ≠ unit.text := by decide
  cases v with
  | integer n => exact hinteger h
  | boolean b =>
    cases w with
    | integer n => exact (hinteger h.symm).symm
    | boolean b' => exact congrArg boolean (hboolean h)
    | unit => exact absurd h hunit
  | unit =>
    cases w with
    | integer n => exact (hinteger h.symm).symm
    | boolean b => exact absurd h.symm hunit
    | unit => rfl

end Literal

theorem isUnbroken_optionalText (n : Option Nat) : IsUnbroken (optionalText n) := by
  cases n with
  | none => decide
  | some n => exact isUnbroken_nat n

/-- A number that is there is not written like one that is missing. -/
theorem optionalText_inj {n k : Option Nat} (h : optionalText n = optionalText k) : n = k := by
  have hmissing : ∀ k : Nat, toString k ≠ "_" := by
    intro k hk
    have hdigit := isDigit_of_mem_toString (n := k) (c := '_') (by simp [hk])
    exact absurd hdigit (by decide)
  cases n with
  | none =>
    cases k with
    | none => rfl
    | some k => exact absurd h.symm (hmissing k)
  | some n =>
    cases k with
    | none => exact absurd h (hmissing n)
    | some k => exact congrArg some (toString_nat_inj (congrArg String.toList h))

/-! ## 3. Leaves -/

/-- The characters of the names in a tree: ASCII letters and digits, the underscore, and the signs
    of the names that passes make. -/
def isNameCharacter (c : Char) : Bool := c.isAlphanum || ['_', '#', '$'].contains c

theorem isBlank_of_isNameCharacter {c : Char} (h : isNameCharacter c = true) :
    isBlank c = false := by
  rw [isNameCharacter, Bool.or_eq_true] at h
  rcases h with h | h
  · have hitem := isItemChar_of_isAlphanum h
    rw [isItemChar, Bool.and_eq_true, Bool.not_eq_true'] at hitem
    exact hitem.1
  · have hsigns : ['_', '#', '$'].all (isBlank · == false) = true := by decide
    exact beq_iff_eq.1 (List.all_eq_true.1 hsigns c (List.contains_iff_mem.1 h))

namespace Leaf

/-- A leaf whose text can be read: a name is made of the characters of names, and written types can
    be read. -/
def IsPrintable : Leaf → Prop
  | name x => ∀ c ∈ x.toList, isNameCharacter c = true
  | ascription a => ∀ t ∈ a, t.toTy.IsWritable
  | ascriptions ts => ∀ t ∈ ts, t.toTy.IsWritable
  | _ => True

/-- The written form of a leaf that holds no type is one part of the line. -/
theorem isUnbroken_text {v : Leaf} (hv : v.IsPrintable) (ha : v.sort ≠ .ascription)
    (has : v.sort ≠ .ascriptions) : IsUnbroken v.text := by
  cases v with
  | name x => exact fun c hc => isBlank_of_isNameCharacter (hv c hc)
  | literal v => exact v.isUnbroken_text
  | builtin b => cases b <;> decide
  | binaryOperator o => cases o <;> decide
  | unaryOperator o => cases o; decide
  | ascription => exact absurd rfl ha
  | ascriptions => exact absurd rfl has
  | count n => exact isUnbroken_nat n
  | optionalCount n => exact isUnbroken_optionalText n
  | tag n => exact isUnbroken_optionalText n

/-- The written form of a leaf that holds no type tells it apart from those of its sort. -/
theorem text_inj {v v' : Leaf} (hsort : v.sort = v'.sort) (ha : v.sort ≠ .ascription)
    (has : v.sort ≠ .ascriptions) (h : v.text = v'.text) : v = v' := by
  cases v with
  | name x =>
    cases v' with
    | name => exact congrArg name h
    | _ => cases hsort
  | literal v =>
    cases v' with
    | literal => exact congrArg literal (Literal.text_inj h)
    | _ => cases hsort
  | builtin b =>
    cases v' with
    | builtin => exact congrArg builtin (eq_of_ofText? Builtin.ofText?_text h)
    | _ => cases hsort
  | binaryOperator o =>
    cases v' with
    | binaryOperator => exact congrArg binaryOperator (eq_of_ofText? BinaryOperator.ofText?_text h)
    | _ => cases hsort
  | unaryOperator o =>
    cases v' with
    | unaryOperator => exact congrArg unaryOperator (eq_of_ofText? UnaryOperator.ofText?_text h)
    | _ => cases hsort
  | ascription => exact absurd rfl ha
  | ascriptions => exact absurd rfl has
  | count n =>
    cases v' with
    | count => exact congrArg count (toString_nat_inj (congrArg String.toList h))
    | _ => cases hsort
  | optionalCount n =>
    cases v' with
    | optionalCount => exact congrArg optionalCount (optionalText_inj h)
    | _ => cases hsort
  | tag n =>
    cases v' with
    | tag => exact congrArg tag (optionalText_inj h)
    | _ => cases hsort

variable {rest rest' : List Char}

/-- No type is written like one that is missing. -/
theorem missing_ne_type {t : TypeExpr} (ht : t.toTy.IsWritable) :
    "_".toList ++ rest ≠ t.chars ++ rest' := by
  obtain ⟨c, cs, hcs, -, hc⟩ := Ty.chars_begin TypeVar.toNat Ty.isSpelling_numbers ht
  intro h
  rw [TypeExpr.chars, show t.toTy.chars TypeVar.text = c :: cs from hcs] at h
  exact hc (List.cons.inj h).1.symm

/-- **An ascription can be read.** -/
theorem ascription_append_inj {a a' : Option TypeExpr} (ha : (ascription a).IsPrintable)
    (ha' : (ascription a').IsPrintable) (hrest : EndsPart rest) (hrest' : EndsPart rest')
    (h : (ascription a).text.toList ++ rest = (ascription a').text.toList ++ rest') :
    a = a' ∧ rest = rest' := by
  cases a with
  | none =>
    cases a' with
    | none => exact ⟨rfl, List.append_cancel_left h⟩
    | some t' =>
      rw [text, text, TypeExpr.toList_text] at h
      exact absurd h (missing_ne_type (ha' t' rfl))
  | some t =>
    cases a' with
    | none =>
      rw [text, text, TypeExpr.toList_text] at h
      exact absurd h.symm (missing_ne_type (ha t rfl))
    | some t' =>
      rw [text, text, TypeExpr.toList_text, TypeExpr.toList_text] at h
      obtain ⟨htype, hrest⟩ :=
        Ty.chars_text_inj (ha t rfl) (ha' t' rfl) hrest.closesType hrest'.closesType h
      exact ⟨congrArg some (TypeExpr.toTy_injective t t' htype), hrest⟩

/-- The written form of several types: they stand in brackets, with commas between them. -/
theorem toList_text_ascriptions (ts : List TypeExpr) : (ascriptions ts).text.toList =
    '[' :: Ty.elementsChars TypeVar.text ']' (TypeExpr.toTys ts) := by
  rw [Ty.elementsChars_eq, TypeExpr.renderAll_toTys, TypeExpr.texts_eq_map, text]
  simp

/-- **Several ascriptions can be read.** -/
theorem ascriptions_append_inj {ts ts' : List TypeExpr} (hts : (ascriptions ts).IsPrintable)
    (hts' : (ascriptions ts').IsPrintable)
    (h : (ascriptions ts).text.toList ++ rest = (ascriptions ts').text.toList ++ rest') :
    ts = ts' ∧ rest = rest' := by
  have hwritable : ∀ {ts : List TypeExpr}, (ascriptions ts).IsPrintable →
      ∀ u ∈ TypeExpr.toTys ts, u.IsWritable := by
    intro ts hts u hu
    rw [TypeExpr.toTys_eq_map] at hu
    obtain ⟨t, ht, rfl⟩ := List.mem_map.1 hu
    exact hts t ht
  rw [toList_text_ascriptions, toList_text_ascriptions] at h
  obtain ⟨htypes, hrest⟩ := Ty.elementsChars_text_inj (.inr rfl) (hwritable hts) (hwritable hts')
    (List.cons.inj h).2
  exact ⟨TypeExpr.toTys_injective ts ts' htypes, hrest⟩

/-- **A leaf can be read** when its sort is known, in front of what may stand behind a part of a
    line. -/
theorem append_inj {v v' : Leaf} (hsort : v.sort = v'.sort) (hv : v.IsPrintable)
    (hv' : v'.IsPrintable) (hrest : EndsPart rest) (hrest' : EndsPart rest')
    (h : v.text.toList ++ rest = v'.text.toList ++ rest') : v = v' ∧ rest = rest' := by
  cases v with
  | ascription a =>
    cases v' with
    | ascription a' =>
      obtain ⟨rfl, heq⟩ := ascription_append_inj hv hv' hrest hrest' h
      exact ⟨rfl, heq⟩
    | _ => cases hsort
  | ascriptions ts =>
    cases v' with
    | ascriptions ts' =>
      obtain ⟨rfl, heq⟩ := ascriptions_append_inj hv hv' h
      exact ⟨rfl, heq⟩
    | _ => cases hsort
  | _ =>
    -- the other leaves reach up to the next blank
    obtain ⟨htext, heq⟩ := (isUnbroken_text hv nofun nofun).append_inj
      (isUnbroken_text hv' (hsort ▸ nofun) (hsort ▸ nofun)) hrest hrest' h
    exact ⟨text_inj hsort nofun nofun htext, heq⟩

end Leaf

/-! ## 4. Lines -/

/-- The leaf in a field. -/
def Field.leaf? : Field → Option Leaf
  | leaf v => some v
  | _ => none

/-- The names and sorts of the leaves of the nodes of a kind. -/
def Kind.leafSorts (k : Kind) : List (String × LeafSort) :=
  ((k.schema.map FieldSpec.name).zip k.contents).filterMap fun
    | (name, .leaf sort) => some (name, sort)
    | _ => none

/-- No field has a name that begins like an arrow. -/
theorem Kind.head_leafSorts (k : Kind) :
    ∀ l ∈ k.leafSorts, l.1.toList.head?.any (· != '-') = true := by
  refine List.all_eq_true.1 ?_
  cases k <;> decide

namespace Node

/-- The leaves of a node with their names, in schema order. -/
def leaves (n : Node) : List (String × Leaf) :=
  n.fields.filterMap fun field => field.2.leaf?.map fun v => (field.1, v)

/-- The kind says what leaves there are, and of what sorts. -/
theorem leaves_map_sort (n : Node) :
    n.leaves.map (fun l => (l.1, l.2.sort)) = n.kind.leafSorts := by
  cases n <;> rfl

/-- A node whose line can be read: its leaves and its type can. -/
structure IsPrintable (n : Node) : Prop where
  leaves : ∀ l ∈ n.leaves, l.2.IsPrintable
  type : ∀ t ∈ n.mark.ty, t.IsWritable

/-- A leaf with its name that can be read: the name does not begin like an arrow. -/
structure ReadsLeaf (l : String × Leaf) : Prop where
  name : l.1.toList.head?.any (· != '-') = true
  value : l.2.IsPrintable

theorem IsPrintable.readsLeaf {n : Node} (h : n.IsPrintable) : ∀ l ∈ n.leaves, ReadsLeaf l := by
  intro l hl
  refine ⟨n.kind.head_leafSorts (l.1, l.2.sort) ?_, h.leaves l hl⟩
  rw [← leaves_map_sort]
  exact List.mem_map_of_mem hl

/-- The characters of the type of a node, if it has one. -/
def typeChars : Option Ty → List Char
  | some t => ' ' :: ':' :: ' ' :: t.chars TypeVar.text
  | none => []

/-- The characters of a line behind the kind. -/
def tailChars (type : Option Ty) : List (String × Leaf) → List Char
  | [] => typeChars type
  | (name, v) :: leaves => ' ' :: (name.toList ++ '=' :: (v.text.toList ++ tailChars type leaves))

/-- The leaves among fields are written one after the other. -/
theorem tailChars_fields (type : Option Ty) (fields : List (String × Field)) :
    tailChars type (fields.filterMap fun field => field.2.leaf?.map fun v => (field.1, v)) =
      (String.join ((fields.filterMap (printedLeaf .plain)).map fun leaf => " " ++ leaf)).toList ++
        typeChars type := by
  induction fields with
  | nil => rfl
  | cons field fields ih =>
    obtain ⟨name, n | ns | v⟩ := field
    · exact ih
    · exact ih
    · have htext : printedLeaf .plain (name, .leaf v) = some (name ++ "=" ++ v.text) := rfl
      have hleaf : (Field.leaf v).leaf? = some v := rfl
      simp only [List.filterMap_cons, hleaf, Option.map_some, htext, tailChars, ih, List.map_cons]
      simp [String.toList_join]

/-- **The line of a node** in plain ink is its kind, its leaves and its type. -/
theorem toList_header (n : Node) :
    (n.header .plain).toList = n.kind.text.toList ++ tailChars n.mark.ty n.leaves := by
  rw [header, leaves, tailChars_fields]
  generalize n.mark.ty = type
  cases type with
  | none => simp [typeChars]
  | some t => simp [typeChars, Ty.chars, Ty.text]

variable {cs cs' : List Char} {type type' : Option Ty}

theorem endsPart_tailChars {leaves : List (String × Leaf)} (hleaves : ∀ l ∈ leaves, ReadsLeaf l) :
    EndsPart (tailChars type leaves ++ '\n' :: cs) := by
  cases leaves with
  | nil =>
    cases type with
    | none => exact .line cs
    | some t => exact .part (by decide)
  | cons l leaves =>
    obtain ⟨name, v⟩ := l
    obtain ⟨c, ds, hname, hc⟩ := exists_cons_of_any_head? (hleaves _ List.mem_cons_self).name
    rw [tailChars, show name.toList = c :: ds from hname]
    exact .part (by simpa using hc)

/-- **The type at the end of a line can be read.** -/
theorem typeChars_inj (ht : ∀ t ∈ type, t.IsWritable) (ht' : ∀ t ∈ type', t.IsWritable)
    (h : typeChars type ++ '\n' :: cs = typeChars type' ++ '\n' :: cs') :
    type = type' ∧ cs = cs' := by
  cases type with
  | none =>
    cases type' with
    | none => exact ⟨rfl, (List.cons.inj h).2⟩
    | some t' => exact absurd (List.cons.inj h).1 (by decide)
  | some t =>
    cases type' with
    | none => exact absurd (List.cons.inj h).1 (by decide)
    | some t' =>
      simp only [typeChars, List.cons_append, List.cons.injEq, true_and] at h
      obtain ⟨htype, hrest⟩ := Ty.chars_text_inj (ht t rfl) (ht' t' rfl)
        (EndsPart.line cs).closesType (EndsPart.line cs').closesType h
      exact ⟨congrArg some htype, (List.cons.inj hrest).2⟩

/-- **The leaves and the type in a line can be read** when the names and sorts of the leaves are
    known. -/
theorem tailChars_inj (ht : ∀ t ∈ type, t.IsWritable) (ht' : ∀ t ∈ type', t.IsWritable) :
    ∀ {ls ls' : List (String × Leaf)},
    ls.map (fun l => (l.1, l.2.sort)) = ls'.map (fun l => (l.1, l.2.sort)) →
    (∀ l ∈ ls, ReadsLeaf l) → (∀ l ∈ ls', ReadsLeaf l) →
    tailChars type ls ++ '\n' :: cs = tailChars type' ls' ++ '\n' :: cs' →
      ls = ls' ∧ type = type' ∧ cs = cs'
  | [], [], _, _, _, h => ⟨rfl, typeChars_inj ht ht' h⟩
  | [], _ :: _, hsorts, _, _, _ => nomatch hsorts
  | _ :: _, [], hsorts, _, _, _ => nomatch hsorts
  | (name, v) :: ls, (name', v') :: ls', hsorts, hls, hls', h => by
    obtain ⟨hfirst, hmore⟩ := List.cons.inj hsorts
    obtain ⟨hname, hsort⟩ := Prod.mk.inj hfirst
    obtain rfl : name = name' := hname
    obtain ⟨hv, hothers⟩ := List.forall_mem_cons.1 hls
    obtain ⟨hv', hothers'⟩ := List.forall_mem_cons.1 hls'
    simp only [tailChars, List.cons_append, List.append_assoc, List.cons.injEq, true_and,
      List.append_cancel_left_eq] at h
    obtain ⟨rfl, htail⟩ := v.append_inj hsort hv.value hv'.value (endsPart_tailChars hothers)
      (endsPart_tailChars hothers') h
    obtain ⟨rfl, hrest⟩ := tailChars_inj ht ht' hmore hothers hothers' htail
    exact ⟨rfl, hrest⟩

/-- **A line can be read**: it says the kind, the leaves and the type. -/
theorem header_inj {a b : Node} (ha : a.IsPrintable) (hb : b.IsPrintable)
    (h : (a.header .plain).toList ++ '\n' :: cs = (b.header .plain).toList ++ '\n' :: cs') :
    a.kind = b.kind ∧ a.leaves = b.leaves ∧ a.mark.ty = b.mark.ty ∧ cs = cs' := by
  have hunbroken : ∀ k : Kind, IsUnbroken k.text := fun k => by cases k <;> decide
  rw [toList_header, toList_header, List.append_assoc, List.append_assoc] at h
  -- the kind reaches up to the first blank, and says what leaves follow
  obtain ⟨htext, htail⟩ := (hunbroken a.kind).append_inj (hunbroken b.kind)
    (endsPart_tailChars ha.readsLeaf) (endsPart_tailChars hb.readsLeaf) h
  have hkind : a.kind = b.kind := eq_of_ofText? Kind.ofText?_text htext
  refine ⟨hkind, tailChars_inj ha.type hb.type ?_ ha.readsLeaf hb.readsLeaf htail⟩
  rw [leaves_map_sort, leaves_map_sort, hkind]

/-! ## 5. Nodes put together from their parts -/

/-- The fields that leaves and subtrees make up, by what a kind says that they hold: a list takes
    what the single subtrees behind it leave over. -/
def fill : List Content → List (String × Leaf) → List Node → List Field
  | [], _, _ => []
  | .leaf _ :: contents, leaves, children =>
    .leaf (leaves.headD default).2 :: fill contents leaves.tail children
  | .single :: contents, leaves, children =>
    .single (children.headD default) :: fill contents leaves children.tail
  | .bunched :: contents, leaves, children =>
    let listed := children.length - contents.count .single
    .bunched (children.take listed) :: fill contents leaves (children.drop listed)

/-- **The fields of a node** are made up by its leaves and its subtrees. -/
theorem contents_eq_fill (n : Node) : n.contents = fill n.kind.contents n.leaves n.children := by
  cases n <;>
    simp [contents, fill, kind, Kind.contents, children, leaves, fields, Kind.schema, Field.leaf?]

/-- Nodes with the same mark and the same fields are the same. -/
theorem eq_of_fields {a b : Node} (hkind : a.kind = b.kind) (hmark : a.mark = b.mark)
    (hfields : a.fields = b.fields) : a = b := by
  have hposition : a.position = b.position := by rw [position, position, hmark]
  have huntyped : a.withoutType = b.withoutType := by
    have hbuilt := a.ofFields_fields
    rw [hkind, hposition, hfields, b.ofFields_fields] at hbuilt
    exact (Except.ok.inj hbuilt).symm
  have hmarked : ∀ n : Node, n.withoutType.withMark n.mark = n := fun n => by cases n <;> rfl
  rw [← hmarked a, ← hmarked b, huntyped, hmark]

theorem kind_unplaced (n : Node) : n.unplaced.kind = n.kind := by cases n <;> rfl

theorem leaves_unplaced (n : Node) : n.unplaced.leaves = n.leaves := by cases n <;> rfl

theorem mark_unplaced (n : Node) : n.unplaced.mark = ⟨default, n.mark.ty⟩ := mark_mapMarks _ n

theorem children_unplaced (n : Node) : n.unplaced.children = n.children.map unplaced :=
  children_mapMarks _ n

/-- **A tree is known up to positions** from the kind, the leaves and the type of its root, and from
    its subtrees up to positions. -/
theorem unplaced_eq {a b : Node} (hkind : a.kind = b.kind) (hleaves : a.leaves = b.leaves)
    (htype : a.mark.ty = b.mark.ty)
    (hchildren : a.children.map unplaced = b.children.map unplaced) : a.unplaced = b.unplaced := by
  have hcontents : a.unplaced.contents = b.unplaced.contents := by
    rw [contents_eq_fill, contents_eq_fill b.unplaced, kind_unplaced, kind_unplaced, hkind,
      leaves_unplaced, leaves_unplaced, hleaves, children_unplaced, children_unplaced, hchildren]
  have hkind : a.unplaced.kind = b.unplaced.kind := by rw [kind_unplaced, kind_unplaced, hkind]
  refine eq_of_fields hkind ?_ ?_
  · rw [mark_unplaced, mark_unplaced, htype]
  · rw [fields, fields, hkind, hcontents]

/-! ## 6. Blocks of lines -/

/-- What stands in front of a line at some depth. -/
def indent : Nat → List Char
  | 0 => []
  | depth + 1 => indent depth ++ ['|', ' ', ' ', ' ']

/-- The characters of a tree whose root stands at some depth. -/
def block (n : Node) : Nat → List Char :=
  n.fold fun node inner depth =>
    indent depth ++ ((node.header .plain).toList ++
      '\n' :: inner.flatMap fun text => text (depth + 1))

theorem block_eq (n : Node) (depth : Nat) : n.block depth =
    indent depth ++ ((n.header .plain).toList ++
      '\n' :: n.children.flatMap fun c => c.block (depth + 1)) := by
  rw [block, fold_eq, List.flatMap_map]
  rfl

/-- The lines of a tree, indented further, are its block at that depth. -/
theorem flatMap_printedLines (n : Node) : ∀ depth : Nat,
    (n.printedLines .plain).flatMap (fun line => indent depth ++ (line.toList ++ ['\n'])) =
      n.block depth := by
  induction n using Node.induction with | h n ih => ?_
  intro depth
  have hchildren : (n.children.flatMap (printedLines .plain)).flatMap
      (fun line => indent depth ++ ((Ink.plain.paint .dimmed "|   " ++ line).toList ++ ['\n'])) =
        n.children.flatMap fun c => c.block (depth + 1) := by
    rw [List.flatMap_assoc]
    refine List.flatMap_congr fun c hc => ?_
    rw [← ih c hc (depth + 1)]
    simp [indent]
  rw [printedLines_eq, block_eq, List.flatMap_cons, List.flatMap_map, hchildren]
  simp

/-- **The printed form of a tree** is its block at depth 0. -/
theorem toList_print (n : Node) : (n.print .plain).toList = n.block 0 := by
  rw [← flatMap_printedLines, print, String.toList_join, List.flatMap_map]
  simp only [indent, String.toList_append, List.nil_append]
  rfl

/-! ## 7. Reading a printed tree -/

/-- No further line follows that stands at the depth or deeper. -/
def EndsBlock (depth : Nat) (rest : List Char) : Prop := ¬ indent depth <+: rest

section

variable {depth : Nat} {rest rest' : List Char}

theorem EndsBlock.deeper (h : EndsBlock depth rest) : EndsBlock (depth + 1) rest :=
  fun hdeeper => h ((List.prefix_append _ _).trans hdeeper)

/-- The first line of a tree stands at its depth. -/
theorem indent_prefix_block (n : Node) : indent depth <+: n.block depth ++ rest := by
  rw [block_eq, List.append_assoc]
  exact List.prefix_append _ _

/-- The first line of a tree stands no deeper: a kind does not begin with what lines are indented
    with. -/
theorem endsBlock_block (n : Node) : EndsBlock (depth + 1) (n.block depth ++ rest) := by
  have hkinds : ∀ k : Kind, k.text.toList.head?.any (· != '|') = true := fun k => by
    cases k <;> decide
  obtain ⟨c, cs, htext, hc⟩ := exists_cons_of_any_head? (hkinds n.kind)
  rw [EndsBlock, block_eq, toList_header, htext, indent, List.append_assoc,
    List.prefix_append_right_inj]
  rintro ⟨more, hmore⟩
  have hsame : '|' = c := (List.cons.inj hmore).1
  rw [← hsame] at hc
  cases hc

/-- No other tree has the same block in front of what may stand behind one, positions apart. -/
def ReadsBlock (a : Node) : Prop :=
  ∀ ⦃b : Node⦄ ⦃depth : Nat⦄ ⦃rest rest' : List Char⦄, b.Everywhere IsPrintable →
    EndsBlock (depth + 1) rest → EndsBlock (depth + 1) rest' →
    a.block depth ++ rest = b.block depth ++ rest' → a.unplaced = b.unplaced ∧ rest = rest'

theorem endsBlock_blocks (hrest : EndsBlock depth rest) (ns : List Node) :
    EndsBlock (depth + 1) (ns.flatMap (fun n => n.block depth) ++ rest) := by
  cases ns with
  | nil => exact hrest.deeper
  | cons n ns =>
    rw [List.flatMap_cons, List.append_assoc]
    exact endsBlock_block n

/-- **Blocks that follow each other can be read** if each of them can. -/
theorem blocks_inj (hrest : EndsBlock depth rest) (hrest' : EndsBlock depth rest') :
    ∀ {as bs : List Node}, (∀ a ∈ as, a.ReadsBlock) → (∀ b ∈ bs, b.Everywhere IsPrintable) →
    as.flatMap (fun n => n.block depth) ++ rest = bs.flatMap (fun n => n.block depth) ++ rest' →
      as.map unplaced = bs.map unplaced ∧ rest = rest'
  | [], [], _, _, h => ⟨rfl, h⟩
  | [], b :: bs, _, _, h => by
    refine absurd ?_ hrest
    rw [List.flatMap_nil, List.nil_append, List.flatMap_cons, List.append_assoc] at h
    rw [h]
    exact indent_prefix_block b
  | a :: as, [], _, _, h => by
    refine absurd ?_ hrest'
    rw [List.flatMap_nil, List.nil_append, List.flatMap_cons, List.append_assoc] at h
    rw [← h]
    exact indent_prefix_block a
  | a :: as, b :: bs, has, hbs, h => by
    obtain ⟨ha, has⟩ := List.forall_mem_cons.1 has
    obtain ⟨hb, hbs⟩ := List.forall_mem_cons.1 hbs
    rw [List.flatMap_cons, List.flatMap_cons, List.append_assoc, List.append_assoc] at h
    -- behind a block stands another one of its depth, or what stands behind them all
    obtain ⟨hfirst, hmore⟩ := ha hb (endsBlock_blocks hrest as) (endsBlock_blocks hrest' bs) h
    obtain ⟨hothers, heq⟩ := blocks_inj hrest hrest' has hbs hmore
    exact ⟨by rw [List.map_cons, List.map_cons, hfirst, hothers], heq⟩

/-- **A block can be read in one way only**: its first line says what node it is, and its children
    are the blocks behind that line, up to the first line that is indented less. -/
theorem readsBlock {a : Node} (ha : a.Everywhere IsPrintable) : a.ReadsBlock := by
  induction ha with | @mk a ha _ ih => ?_
  intro b depth rest rest' hb hrest hrest' h
  rw [block_eq, block_eq] at h
  simp only [List.append_assoc, List.cons_append, List.append_cancel_left_eq] at h
  obtain ⟨hkind, hleaves, htype, hmore⟩ := header_inj ha hb.here h
  obtain ⟨hchildren, heq⟩ := blocks_inj hrest hrest' ih (fun c hc => hb.child hc) hmore
  exact ⟨unplaced_eq hkind hleaves htype hchildren, heq⟩

end

/-! ## 8. Trees that are printed alike -/

/-- Positions are not printed. -/
theorem printedLines_unplaced (ink : Ink) (n : Node) :
    n.unplaced.printedLines ink = n.printedLines ink := by
  induction n using Node.induction with | h n ih => ?_
  have hheader : n.unplaced.header ink = n.header ink := by cases n <;> rfl
  have hchildren : n.unplaced.children.flatMap (printedLines ink) =
      n.children.flatMap (printedLines ink) := by
    rw [children_unplaced, List.flatMap_map]
    exact List.flatMap_congr ih
  rw [printedLines_eq, hheader, hchildren, ← printedLines_eq]

/-- **Printed trees tell trees apart.** Two trees whose names are made of ASCII letters, digits and
    the signs `_`, `#` and `$`, and whose types can be read, are printed alike without colour
    exactly when they are the same up to positions, with their recorded types, tags, numbers of
    elements and ascriptions. -/
theorem print_plain_eq_iff {a b : Node} (ha : a.Everywhere IsPrintable)
    (hb : b.Everywhere IsPrintable) :
    a.print .plain = b.print .plain ↔ a.unplaced = b.unplaced := by
  constructor
  · intro h
    have hblocks : a.block 0 ++ [] = b.block 0 ++ [] := by rw [← toList_print, h, toList_print]
    have hend : EndsBlock 1 [] := by rw [EndsBlock]; decide
    exact (readsBlock ha hb hend hend hblocks).1
  · intro h
    rw [print, ← printedLines_unplaced, h, printedLines_unplaced, print]

/-- An arm that takes a list apart, with a binder that was renamed and a tag that may be missing. -/
def sampleArm (p : Position) (tag : Option Nat) : Node :=
  .matchArm ⟨p, none⟩
    (.patternConstructor ⟨p, some (.data "List")⟩ "Cons"
      [.patternBinder ⟨p, some (.tuple [])⟩ "x#1"] tag)
    (.reference ⟨p, none⟩ "x#1")

theorem sampleArm_isPrintable (p : Position) (tag : Option Nat) :
    (sampleArm p tag).Everywhere IsPrintable := by
  have hname : (Leaf.name "x#1").IsPrintable := List.all_eq_true.1 (by decide)
  have hcons : (Leaf.name "Cons").IsPrintable := List.all_eq_true.1 (by decide)
  have hlist : IsCapitalised "List" := ⟨by decide, by decide, by decide⟩
  have hnone : ∀ t ∈ (none : Option Ty), t.IsWritable := fun t ht => by cases ht
  have hnil : ∀ {α : Type} {p : α → Prop}, ∀ x ∈ ([] : List α), p x := List.forall_mem_nil _
  refine .mk ⟨hnil, hnone⟩ (List.forall_mem_cons.2 ⟨.mk ⟨?_, ?_⟩ ?_, ?_⟩)
  · exact List.forall_mem_cons.2 ⟨hcons, List.forall_mem_cons.2 ⟨trivial, hnil⟩⟩
  · exact fun t ht => Option.some.inj ht ▸ .data hlist
  · refine List.forall_mem_cons.2 ⟨.mk ⟨?_, ?_⟩ hnil, hnil⟩
    · exact List.forall_mem_cons.2 ⟨hname, hnil⟩
    · exact fun t ht => Option.some.inj ht ▸ .tuple (by decide) hnil
  · exact List.forall_mem_cons.2
      ⟨.mk ⟨List.forall_mem_cons.2 ⟨hname, hnil⟩, hnone⟩ hnil, hnil⟩

/-- At another place the arm is printed the same, and with another tag it is not. -/
theorem print_plain_eq_iff_sampleArm :
    (sampleArm ⟨1, 3⟩ (some 1)).print .plain = (sampleArm ⟨2, 7⟩ (some 1)).print .plain ∧
      (sampleArm ⟨1, 3⟩ none).print .plain ≠ (sampleArm ⟨1, 3⟩ (some 1)).print .plain := by
  have hprintable := sampleArm_isPrintable
  refine ⟨(print_plain_eq_iff (hprintable _ _) (hprintable _ _)).2 rfl, fun h => ?_⟩
  have hsame := (print_plain_eq_iff (hprintable _ _) (hprintable _ _)).1 h
  simp [sampleArm, unplaced, mapMarks] at hsame

end Node

end ClosureML
