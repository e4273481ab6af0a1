import ClosureML.Proofs.Runs
import ClosureML.Syntax.Field
import Mathlib.Data.List.Forall2

/-!
# Which lists of named fields are those of a node

Taking a node apart and putting one together are written kind by kind and apart from each other, and
so are the list of its subtrees and the places at which they are changed. This file says what all of
them agree on.

* `Content`: what a field holds, that is its shape and, of a leaf, the sort of the value;
* `Node.outline`, `fieldsOutline`: the names of fields and what they hold;
* `FirstApart`: the first number at which two lists hold what is not related;
* `Kind.Refuses`: the errors that a list of fields is refused with as one of a node of some kind;
* `Node.subtrees`: the subtrees as the fields list them;
* `Node.withChildren`: a node with other subtrees written into the places of its own.

Main statements: `Node.ofFields_spec` (putting together gives a node with exactly these fields, or
the error of the first rule that they break) and `Node.fields_exact` (taking apart and putting
together are inverse, and all lists of subtrees agree).
-/

namespace ClosureML

/-! ## 1. What a field holds -/

/-- The sorts of leaf values. -/
inductive LeafSort where
  | name
  | literal
  | builtin
  | binaryOperator
  | unaryOperator
  | ascription
  | ascriptions
  | count
  | optionalCount
  | tag
  deriving DecidableEq, Repr

/-- The sort of a leaf value. -/
def Leaf.sort : Leaf → LeafSort
  | name _ => .name
  | literal _ => .literal
  | builtin _ => .builtin
  | binaryOperator _ => .binaryOperator
  | unaryOperator _ => .unaryOperator
  | ascription _ => .ascription
  | ascriptions _ => .ascriptions
  | count _ => .count
  | optionalCount _ => .optionalCount
  | tag _ => .tag

/-- What a field holds: its shape, and the sort of a leaf value. -/
inductive Content where
  | single
  | bunched
  | leaf (sort : LeafSort)
  deriving DecidableEq, Repr

/-- How such a field holds its value. -/
def Content.shape : Content → Shape
  | single => .single
  | bunched => .bunched
  | leaf _ => .leaf

/-- What a field holds. -/
def Field.content : Field → Content
  | single _ => .single
  | bunched _ => .bunched
  | leaf v => .leaf v.sort

theorem Field.content_shape (f : Field) : f.content.shape = f.shape := by cases f <;> rfl

/-- The names of fields and what they hold. -/
def fieldsOutline (fields : List (String × Field)) : List (String × Content) :=
  fields.map fun field => (field.1, field.2.content)

/-- The names of the fields of a node and what they hold. -/
def Node.outline (n : Node) : List (String × Content) := fieldsOutline n.fields

/-- What the fields of the nodes of a kind hold, in schema order. -/
def Kind.contents : Kind → List Content
  | top => [.single]
  | literal => [.leaf .literal]
  | reference => [.leaf .name]
  | builtin => [.leaf .builtin]
  | lambda => [.leaf .name, .leaf .ascription, .single]
  | application => [.single, .single]
  | letIn => [.leaf .name, .leaf .ascription, .single, .single]
  | letRec => [.bunched, .single]
  | letRecArm => [.leaf .name, .leaf .name, .leaf .ascription, .leaf .ascription, .single]
  | conditional => [.single, .single, .single]
  | binary => [.leaf .binaryOperator, .single, .single]
  | unary => [.leaf .unaryOperator, .single]
  | sequence => [.bunched]
  | tuple => [.bunched]
  | projection => [.leaf .count, .leaf .optionalCount, .single]
  | matchWith => [.single, .bunched]
  | matchArm => [.single, .single]
  | dataType => [.leaf .name, .bunched, .single]
  | dataConstructor => [.leaf .name, .leaf .ascriptions, .leaf .tag]
  | patternBinder => [.leaf .name]
  | patternTuple => [.bunched]
  | patternLiteral => [.leaf .literal]
  | patternConstructor => [.leaf .name, .bunched, .leaf .tag]
  | indexed => [.leaf .count, .leaf .optionalCount]

/-- The schema of a kind has the shapes of what its nodes hold. -/
theorem Kind.contents_map_shape (k : Kind) :
    k.contents.map Content.shape = k.schema.map FieldSpec.shape := by cases k <;> rfl

/-- The names of the schema, and what the kind says that the fields hold. -/
theorem Node.outline_eq (n : Node) :
    n.outline = (n.kind.schema.map FieldSpec.name).zip n.kind.contents := by
  cases n <;> rfl

/-! ## 2. The first number at which two lists are apart -/

/-- Number `i` is the first at which two lists hold what `R` does not relate: `a` and `b`. -/
inductive FirstApart {α β : Type} (R : α → β → Prop) : List α → List β → Nat → α → β → Prop
  | head {a : α} {b : β} {as : List α} {bs : List β} (apart : ¬ R a b) :
    FirstApart R (a :: as) (b :: bs) 0 a b
  | tail {a x : α} {b y : β} {as : List α} {bs : List β} {i : Nat} (related : R a b)
    (rest : FirstApart R as bs i x y) : FirstApart R (a :: as) (b :: bs) (i + 1) x y

namespace FirstApart

variable {α β : Type} {R : α → β → Prop} {a x : α} {b y : β} {as : List α} {bs : List β} {i j : Nat}

/-- Lists that are related throughout are nowhere apart. -/
theorem not_forall₂ (h : FirstApart R as bs i a b) : ¬ List.Forall₂ R as bs := by
  induction h with
  | head h => exact fun | .cons h' _ => h h'
  | tail _ _ ih => exact fun | .cons _ ht => ih ht

/-- Two lists are apart for the first time in one place only. -/
theorem unique (h : FirstApart R as bs i a b) (h' : FirstApart R as bs j x y) :
    i = j ∧ a = x ∧ b = y := by
  induction h generalizing j with
  | head h =>
    cases h' with
    | head => exact ⟨rfl, rfl, rfl⟩
    | tail related => exact absurd related h
  | tail related _ ih =>
    cases h' with
    | head h => exact absurd related h
    | tail _ rest =>
      obtain ⟨rfl, rfl, rfl⟩ := ih rest
      exact ⟨rfl, rfl, rfl⟩

end FirstApart

/-! ## 3. The rules that a list of fields has to keep -/

/-- A field has the name and the shape that the schema asks for. -/
def FieldSpec.Fits (spec : FieldSpec) (field : String × Field) : Prop :=
  spec.name = field.1 ∧ spec.shape = field.2.shape

/-- A field holds what is asked for. -/
def Content.IsOf (content : Content) (field : String × Field) : Prop := field.2.content = content

/-- **The errors** that a list of fields is refused with: a wrong number of fields before all, then
    the first field with a wrong name or shape, its name first, and the first field with a wrong
    leaf when names and shapes are right throughout. -/
inductive Kind.Refuses (kind : Kind) (fields : List (String × Field)) : SchemaError → Prop
  | count (count : fields.length ≠ kind.schema.length) :
    Refuses kind fields (.fieldCount kind kind.schema.length fields.length)
  | name {i : Nat} {spec : FieldSpec} {field : String × Field}
    (count : fields.length = kind.schema.length)
    (first : FirstApart FieldSpec.Fits kind.schema fields i spec field)
    (name : spec.name ≠ field.1) :
    Refuses kind fields (.unexpectedField kind i spec.name field.1)
  | shape {i : Nat} {spec : FieldSpec} {field : String × Field}
    (count : fields.length = kind.schema.length)
    (first : FirstApart FieldSpec.Fits kind.schema fields i spec field)
    (name : spec.name = field.1) :
    Refuses kind fields (.wrongShape kind spec.name spec.shape)
  | leaf {i : Nat} {content : Content} {field : String × Field}
    (fits : List.Forall₂ FieldSpec.Fits kind.schema fields)
    (first : FirstApart Content.IsOf kind.contents fields i content field) :
    Refuses kind fields (.wrongLeaf kind field.1)

/-- A list of fields is refused with one error only. -/
theorem Kind.Refuses.unique {kind : Kind} {fields : List (String × Field)} {e e' : SchemaError}
    (h : kind.Refuses fields e) (h' : kind.Refuses fields e') : e = e' := by
  cases h with
  | count count =>
    cases h' with
    | count => rfl
    | name count' => exact absurd count' count
    | shape count' => exact absurd count' count
    | leaf fits => exact absurd fits.length_eq.symm count
  | name count first name =>
    cases h' with
    | count count' => exact absurd count count'
    | name _ first' =>
      obtain ⟨rfl, rfl, rfl⟩ := first.unique first'
      rfl
    | shape _ first' name' =>
      obtain ⟨rfl, rfl, rfl⟩ := first.unique first'
      exact absurd name' name
    | leaf fits => exact absurd fits first.not_forall₂
  | shape count first name =>
    cases h' with
    | count count' => exact absurd count count'
    | name _ first' name' =>
      obtain ⟨rfl, rfl, rfl⟩ := first.unique first'
      exact absurd name name'
    | shape _ first' =>
      obtain ⟨rfl, rfl, rfl⟩ := first.unique first'
      rfl
    | leaf fits => exact absurd fits first.not_forall₂
  | leaf fits first =>
    cases h' with
    | count count => exact absurd fits.length_eq.symm count
    | name _ first' => exact absurd fits first'.not_forall₂
    | shape _ first' => exact absurd fits first'.not_forall₂
    | leaf _ first' =>
      obtain ⟨rfl, rfl, rfl⟩ := first.unique first'
      rfl

/-! ## 4. Reading one field -/

/-- `read` takes out of a field with such a content what `inject` puts into one, and reports a leaf
    of another sort. -/
structure ReadsField {α : Type} (kind : Kind) (content : Content) (inject : α → Field)
    (read : String × Field → Except SchemaError α) : Prop where
  ok : ∀ {name : String} {f : Field}, f.content = content →
    ∃ a, f = inject a ∧ read (name, f) = .ok a
  error : ∀ {name : String} {f : Field}, f.shape = content.shape → f.content ≠ content →
    read (name, f) = .error (.wrongLeaf kind name)

/-- `select` takes out of a leaf of a sort what `inject` puts into one, and nothing else. -/
def Selects {α : Type} (sort : LeafSort) (inject : α → Leaf) (select : Leaf → Option α) : Prop :=
  ∀ v, (∃ a, v = inject a ∧ v.sort = sort ∧ select v = some a) ∨ v.sort ≠ sort ∧ select v = none

namespace ReadsField

variable {kind : Kind}

theorem node : ReadsField kind .single .single (Node.readNode kind) where
  ok := by
    rintro name (n | ns | v) h
    · exact ⟨n, rfl, rfl⟩
    · cases h
    · cases h
  error := by
    rintro name (n | ns | v) hshape h
    · exact absurd rfl h
    · cases hshape
    · cases hshape

theorem nodes : ReadsField kind .bunched .bunched (Node.readNodes kind) where
  ok := by
    rintro name (n | ns | v) h
    · cases h
    · exact ⟨ns, rfl, rfl⟩
    · cases h
  error := by
    rintro name (n | ns | v) hshape h
    · cases hshape
    · exact absurd rfl h
    · cases hshape

theorem leaf {α : Type} {sort : LeafSort} {inject : α → Leaf} {select : Leaf → Option α}
    (hselect : Selects sort inject select) :
    ReadsField kind (.leaf sort) (.leaf ∘ inject) (Node.readLeaf kind select) where
  ok := by
    rintro name (n | ns | v) h
    · cases h
    · cases h
    · have hsort : v.sort = sort := Content.leaf.inj h
      rcases hselect v with ⟨a, rfl, -, hv⟩ | ⟨hne, -⟩
      · exact ⟨a, rfl, by simp [Node.readLeaf, hv]⟩
      · exact absurd hsort hne
  error := by
    rintro name (n | ns | v) hshape h
    · cases hshape
    · cases hshape
    · rcases hselect v with ⟨a, -, hsort, -⟩ | ⟨-, hv⟩
      · exact absurd (congrArg Content.leaf hsort) h
      · simp [Node.readLeaf, hv]

theorem name : ReadsField kind (.leaf .name) (.leaf ∘ .name) (Node.readLeaf kind Leaf.name?) :=
  leaf fun v => by cases v <;> simp [Leaf.name?, Leaf.sort]

theorem literal :
    ReadsField kind (.leaf .literal) (.leaf ∘ .literal) (Node.readLeaf kind Leaf.literal?) :=
  leaf fun v => by cases v <;> simp [Leaf.literal?, Leaf.sort]

theorem builtin :
    ReadsField kind (.leaf .builtin) (.leaf ∘ .builtin) (Node.readLeaf kind Leaf.builtin?) :=
  leaf fun v => by cases v <;> simp [Leaf.builtin?, Leaf.sort]

theorem binaryOperator :
    ReadsField kind (.leaf .binaryOperator) (.leaf ∘ .binaryOperator)
      (Node.readLeaf kind Leaf.binaryOperator?) :=
  leaf fun v => by cases v <;> simp [Leaf.binaryOperator?, Leaf.sort]

theorem unaryOperator :
    ReadsField kind (.leaf .unaryOperator) (.leaf ∘ .unaryOperator)
      (Node.readLeaf kind Leaf.unaryOperator?) :=
  leaf fun v => by
    cases v with
    | unaryOperator o => exact .inl ⟨o, rfl, rfl, rfl⟩
    | _ => exact .inr ⟨nofun, rfl⟩

theorem ascription :
    ReadsField kind (.leaf .ascription) (.leaf ∘ .ascription)
      (Node.readLeaf kind Leaf.ascription?) :=
  leaf fun v => by cases v <;> simp [Leaf.ascription?, Leaf.sort]

theorem ascriptions :
    ReadsField kind (.leaf .ascriptions) (.leaf ∘ .ascriptions)
      (Node.readLeaf kind Leaf.ascriptions?) :=
  leaf fun v => by cases v <;> simp [Leaf.ascriptions?, Leaf.sort]

theorem count : ReadsField kind (.leaf .count) (.leaf ∘ .count) (Node.readLeaf kind Leaf.count?) :=
  leaf fun v => by cases v <;> simp [Leaf.count?, Leaf.sort]

theorem optionalCount :
    ReadsField kind (.leaf .optionalCount) (.leaf ∘ .optionalCount)
      (Node.readLeaf kind Leaf.optionalCount?) :=
  leaf fun v => by cases v <;> simp [Leaf.optionalCount?, Leaf.sort]

theorem tag : ReadsField kind (.leaf .tag) (.leaf ∘ .tag) (Node.readLeaf kind Leaf.tag?) :=
  leaf fun v => by cases v <;> simp [Leaf.tag?, Leaf.sort]

end ReadsField

/-! ## 5. Reading the fields of a node one after the other -/

/-- What is left to read of a node gives the node that has, behind the values `before`, those of the
    fields that are left; or it ends with the first of these that holds a wrong leaf. -/
inductive Assembles (kind : Kind) (p : Position) (contents : List Content)
    (fields : List (String × Field)) (before : List Field) : Except SchemaError Node → Prop
  | ok {n : Node} (all : List.Forall₂ Content.IsOf contents fields) (kind_eq : n.kind = kind)
    (mark_eq : n.mark = .at p) (contents_eq : n.contents = before ++ fields.map Prod.snd) :
    Assembles kind p contents fields before (.ok n)
  | error {i : Nat} {content : Content} {field : String × Field}
    (first : FirstApart Content.IsOf contents fields i content field) :
    Assembles kind p contents fields before (.error (.wrongLeaf kind field.1))

namespace Assembles

variable {kind : Kind} {p : Position} {contents : List Content} {fields : List (String × Field)}
  {before : List Field}

/-- Behind the last field stands the node itself. -/
theorem pure {n : Node} (h : n.kind = kind ∧ n.mark = .at p ∧ n.contents = before) :
    Assembles kind p [] [] before (pure n) := .ok .nil h.1 h.2.1 (by simp [h.2.2])

/-- **One field more** is read before the others. -/
theorem cons {α : Type} {content : Content} {inject : α → Field}
    {read : String × Field → Except SchemaError α} (hread : ReadsField kind content inject read)
    {f : α → Except SchemaError Node} {field : String × Field}
    (hshape : field.2.shape = content.shape)
    (hf : ∀ a, Assembles kind p contents fields (before ++ [inject a]) (f a)) :
    Assembles kind p (content :: contents) (field :: fields) before (read field >>= f) := by
  obtain ⟨name, field⟩ := field
  by_cases h : field.content = content
  · obtain ⟨a, rfl, ha⟩ : ∃ a, field = inject a ∧ read (name, field) = .ok a := hread.ok h
    rw [ha]
    change Assembles _ _ _ _ _ (f a)
    have rest := hf a
    generalize f a = x at rest
    cases rest with
    | ok all kind_eq mark_eq contents_eq =>
      exact .ok (.cons h all) kind_eq mark_eq (by simpa using contents_eq)
    | error first => exact .error (.tail h first)
  · have first : FirstApart Content.IsOf (content :: contents) ((name, field) :: fields) 0 content
        (name, field) := .head h
    rw [hread.error hshape h]
    exact .error first

end Assembles

/-- **Putting a node together** out of fields of the right shapes: one case for each kind, and in it
    one step for each field. -/
theorem Node.assemble_spec (p : Position) {kind : Kind} {fields : List (String × Field)}
    (h : List.Forall₂ (fun content field => field.2.shape = content.shape) kind.contents fields) :
    Assembles kind p kind.contents fields [] (assemble kind p fields) := by
  cases kind with
  | top =>
    rcases h with _ | ⟨e, ⟨⟩⟩
    exact .cons .node e fun _ => .pure ⟨rfl, rfl, rfl⟩
  | literal =>
    rcases h with _ | ⟨v, ⟨⟩⟩
    exact .cons .literal v fun _ => .pure ⟨rfl, rfl, rfl⟩
  | reference =>
    rcases h with _ | ⟨x, ⟨⟩⟩
    exact .cons .name x fun _ => .pure ⟨rfl, rfl, rfl⟩
  | builtin =>
    rcases h with _ | ⟨b, ⟨⟩⟩
    exact .cons .builtin b fun _ => .pure ⟨rfl, rfl, rfl⟩
  | lambda =>
    rcases h with _ | ⟨x, _ | ⟨a, _ | ⟨body, ⟨⟩⟩⟩⟩
    exact .cons .name x fun _ => .cons .ascription a fun _ =>
      .cons .node body fun _ => .pure ⟨rfl, rfl, rfl⟩
  | application =>
    rcases h with _ | ⟨g, _ | ⟨e, ⟨⟩⟩⟩
    exact .cons .node g fun _ => .cons .node e fun _ => .pure ⟨rfl, rfl, rfl⟩
  | letIn =>
    rcases h with _ | ⟨x, _ | ⟨a, _ | ⟨value, _ | ⟨body, ⟨⟩⟩⟩⟩⟩
    exact .cons .name x fun _ => .cons .ascription a fun _ =>
      .cons .node value fun _ => .cons .node body fun _ => .pure ⟨rfl, rfl, rfl⟩
  | letRec =>
    rcases h with _ | ⟨arms, _ | ⟨body, ⟨⟩⟩⟩
    exact .cons .nodes arms fun _ => .cons .node body fun _ => .pure ⟨rfl, rfl, rfl⟩
  | letRecArm =>
    rcases h with _ | ⟨x, _ | ⟨y, _ | ⟨a, _ | ⟨b, _ | ⟨body, ⟨⟩⟩⟩⟩⟩⟩
    exact .cons .name x fun _ => .cons .name y fun _ =>
      .cons .ascription a fun _ => .cons .ascription b fun _ =>
        .cons .node body fun _ => .pure ⟨rfl, rfl, rfl⟩
  | conditional =>
    rcases h with _ | ⟨c, _ | ⟨t, _ | ⟨e, ⟨⟩⟩⟩⟩
    exact .cons .node c fun _ => .cons .node t fun _ => .cons .node e fun _ =>
      .pure ⟨rfl, rfl, rfl⟩
  | binary =>
    rcases h with _ | ⟨o, _ | ⟨l, _ | ⟨r, ⟨⟩⟩⟩⟩
    exact .cons .binaryOperator o fun _ => .cons .node l fun _ =>
      .cons .node r fun _ => .pure ⟨rfl, rfl, rfl⟩
  | unary =>
    rcases h with _ | ⟨o, _ | ⟨e, ⟨⟩⟩⟩
    exact .cons .unaryOperator o fun _ => .cons .node e fun _ => .pure ⟨rfl, rfl, rfl⟩
  | sequence =>
    rcases h with _ | ⟨es, ⟨⟩⟩
    exact .cons .nodes es fun _ => .pure ⟨rfl, rfl, rfl⟩
  | tuple =>
    rcases h with _ | ⟨es, ⟨⟩⟩
    exact .cons .nodes es fun _ => .pure ⟨rfl, rfl, rfl⟩
  | projection =>
    rcases h with _ | ⟨i, _ | ⟨n, _ | ⟨e, ⟨⟩⟩⟩⟩
    exact .cons .count i fun _ => .cons .optionalCount n fun _ =>
      .cons .node e fun _ => .pure ⟨rfl, rfl, rfl⟩
  | matchWith =>
    rcases h with _ | ⟨e, _ | ⟨arms, ⟨⟩⟩⟩
    exact .cons .node e fun _ => .cons .nodes arms fun _ => .pure ⟨rfl, rfl, rfl⟩
  | matchArm =>
    rcases h with _ | ⟨q, _ | ⟨body, ⟨⟩⟩⟩
    exact .cons .node q fun _ => .cons .node body fun _ => .pure ⟨rfl, rfl, rfl⟩
  | dataType =>
    rcases h with _ | ⟨d, _ | ⟨cs, _ | ⟨body, ⟨⟩⟩⟩⟩
    exact .cons .name d fun _ => .cons .nodes cs fun _ =>
      .cons .node body fun _ => .pure ⟨rfl, rfl, rfl⟩
  | dataConstructor =>
    rcases h with _ | ⟨c, _ | ⟨ts, _ | ⟨tag, ⟨⟩⟩⟩⟩
    exact .cons .name c fun _ => .cons .ascriptions ts fun _ =>
      .cons .tag tag fun _ => .pure ⟨rfl, rfl, rfl⟩
  | patternBinder =>
    rcases h with _ | ⟨x, ⟨⟩⟩
    exact .cons .name x fun _ => .pure ⟨rfl, rfl, rfl⟩
  | patternTuple =>
    rcases h with _ | ⟨ps, ⟨⟩⟩
    exact .cons .nodes ps fun _ => .pure ⟨rfl, rfl, rfl⟩
  | patternLiteral =>
    rcases h with _ | ⟨v, ⟨⟩⟩
    exact .cons .literal v fun _ => .pure ⟨rfl, rfl, rfl⟩
  | patternConstructor =>
    rcases h with _ | ⟨c, _ | ⟨ps, _ | ⟨tag, ⟨⟩⟩⟩⟩
    exact .cons .name c fun _ => .cons .nodes ps fun _ =>
      .cons .tag tag fun _ => .pure ⟨rfl, rfl, rfl⟩
  | indexed =>
    rcases h with _ | ⟨d, _ | ⟨s, ⟨⟩⟩⟩
    exact .cons .count d fun _ => .cons .optionalCount s fun _ =>
      .pure ⟨rfl, rfl, rfl⟩

/-! ## 6. Checking names and shapes -/

/-- What the check of names and shapes gives for the fields from number `start` on. -/
inductive FieldsChecked (kind : Kind) (start : Nat) (specs : List FieldSpec)
    (fields : List (String × Field)) : Except SchemaError Unit → Prop
  | ok (fits : List.Forall₂ FieldSpec.Fits specs fields) :
    FieldsChecked kind start specs fields (.ok ())
  | name {i : Nat} {spec : FieldSpec} {field : String × Field}
    (first : FirstApart FieldSpec.Fits specs fields i spec field) (name : spec.name ≠ field.1) :
    FieldsChecked kind start specs fields
      (.error (.unexpectedField kind (start + i) spec.name field.1))
  | shape {i : Nat} {spec : FieldSpec} {field : String × Field}
    (first : FirstApart FieldSpec.Fits specs fields i spec field) (name : spec.name = field.1) :
    FieldsChecked kind start specs fields (.error (.wrongShape kind spec.name spec.shape))

/-- **The check** of as many fields as the schema has, by recursion on both. -/
theorem Node.checkFields_spec (kind : Kind) : ∀ (start : Nat) (specs : List FieldSpec)
    (fields : List (String × Field)), fields.length = specs.length →
    FieldsChecked kind start specs fields (checkFields kind start specs fields)
  | _, [], [], _ => .ok .nil
  | start, spec :: specs, (name, field) :: fields, hcount => by
    unfold checkFields
    split
    · next hname => exact .name (.head fun h => hname h.1) hname
    · next hname =>
      split
      · next hshape => exact .shape (.head fun h => hshape h.2) (not_not.1 hname)
      · next hshape =>
        have fits : spec.Fits (name, field) := ⟨not_not.1 hname, not_not.1 hshape⟩
        have rest := checkFields_spec kind (start + 1) specs fields (Nat.succ.inj hcount)
        generalize checkFields kind (start + 1) specs fields = x at rest
        cases rest with
        | ok all => exact .ok (.cons fits all)
        | @name i spec field first name =>
          rw [show start + 1 + i = start + (i + 1) by omega]
          exact .name (.tail fits first) name
        | shape first name => exact .shape (.tail fits first) name

/-- Fields that fit the schema have the shapes of what the nodes of the kind hold. -/
theorem Kind.shapes_of_fits {kind : Kind} {fields : List (String × Field)}
    (h : List.Forall₂ FieldSpec.Fits kind.schema fields) :
    List.Forall₂ (fun content field => field.2.shape = content.shape) kind.contents fields := by
  have shapes : List.Forall₂ (fun shape field => shape = field.2.shape)
      (kind.schema.map FieldSpec.shape) fields :=
    List.forall₂_map_left_iff.2 (h.imp fun _ _ fits => fits.2)
  rw [← kind.contents_map_shape, List.forall₂_map_left_iff] at shapes
  exact shapes.imp fun _ _ h => h.symm

/-! ## 7. Putting a node together -/

/-- Named fields are the names together with the values. -/
theorem fields_eq_zip (fields : List (String × Field)) :
    fields = (fields.map Prod.fst).zip (fields.map Prod.snd) := by
  induction fields with
  | nil => rfl
  | cons field fields ih => rw [List.map_cons, List.map_cons, List.zip_cons_cons, ← ih]

theorem Kind.names_of_fits {kind : Kind} {fields : List (String × Field)}
    (h : List.Forall₂ FieldSpec.Fits kind.schema fields) :
    fields.map Prod.fst = kind.schema.map FieldSpec.name := by
  generalize kind.schema = specs at h
  induction h with
  | nil => rfl
  | cons fits _ ih => rw [List.map_cons, List.map_cons, ih, fits.1]

/-- What putting a node of a kind together gives: a node with exactly these fields, or the error
    that they are refused with. -/
inductive Built (kind : Kind) (p : Position) (fields : List (String × Field)) :
    Except SchemaError Node → Prop
  | ok {n : Node} (kind_eq : n.kind = kind) (mark_eq : n.mark = .at p)
    (fields_eq : n.fields = fields) (fits : List.Forall₂ FieldSpec.Fits kind.schema fields)
    (holds : List.Forall₂ Content.IsOf kind.contents fields) : Built kind p fields (.ok n)
  | error {e : SchemaError} (refuses : kind.Refuses fields e) : Built kind p fields (.error e)

/-- **Putting together** gives a node with exactly these fields, or the error of the first rule that
    they break. -/
theorem Node.ofFields_spec (kind : Kind) (p : Position) (fields : List (String × Field)) :
    Built kind p fields (ofFields kind p fields) := by
  unfold ofFields
  by_cases count : fields.length = kind.schema.length
  · rw [if_neg (not_not.2 count)]
    have check := checkFields_spec kind 0 kind.schema fields count
    change Built _ _ _ (checkFields kind 0 kind.schema fields >>= fun _ => assemble kind p fields)
    generalize checkFields kind 0 kind.schema fields = x at check
    cases check with
    | ok fits =>
      change Built _ _ _ (assemble kind p fields)
      have assembles := assemble_spec p (Kind.shapes_of_fits fits)
      generalize assemble kind p fields = y at assembles
      cases assembles with
      | @ok n all kind_eq mark_eq contents_eq =>
        have fields_eq : n.fields = fields := by
          rw [fields_eq_zip fields, Kind.names_of_fits fits, ← kind_eq, Node.fields, contents_eq,
            List.nil_append]
        exact .ok kind_eq mark_eq fields_eq fits all
      | error first => exact .error (.leaf fits first)
    | @name i spec field first name =>
      rw [Nat.zero_add]
      exact .error (.name count first name)
    | shape first name => exact .error (.shape count first name)
  · rw [if_pos count]
    exact .error (.count count)

/-- Fields with the outline of a node have the names and the shapes of its schema. -/
theorem Node.fits_of_outline {n : Node} {fields : List (String × Field)}
    (h : fieldsOutline fields = n.outline) : List.Forall₂ FieldSpec.Fits n.kind.schema fields := by
  have own : List.Forall₂ (fun (spec : FieldSpec) field => spec.name = field.1 ∧
      spec.shape = field.2.shape) n.kind.schema n.outline := by
    cases n <;> simp [outline_eq, kind, Kind.schema, Kind.contents, Content.shape]
  rw [← h, fieldsOutline, List.forall₂_map_right_iff] at own
  exact own.imp fun _ field fits => ⟨fits.1, fits.2.trans field.2.content_shape⟩

/-- Fields with the outline of a node hold what its fields hold. -/
theorem Node.holds_of_outline {n : Node} {fields : List (String × Field)}
    (h : fieldsOutline fields = n.outline) : List.Forall₂ Content.IsOf n.kind.contents fields := by
  have own : List.Forall₂ (fun content field => field.2 = content) n.kind.contents n.outline := by
    cases n <;> simp [outline_eq, kind, Kind.schema, Kind.contents]
  rwa [← h, fieldsOutline, List.forall₂_map_right_iff] at own

/-- Fields that keep all rules are not refused. -/
theorem Kind.Refuses.broken {kind : Kind} {fields : List (String × Field)} {e : SchemaError}
    (h : kind.Refuses fields e) (fits : List.Forall₂ FieldSpec.Fits kind.schema fields) :
    ¬ List.Forall₂ Content.IsOf kind.contents fields := by
  cases h with
  | count count => exact absurd fits.length_eq.symm count
  | name _ first => exact absurd fits first.not_forall₂
  | shape _ first => exact absurd fits first.not_forall₂
  | leaf _ first => exact first.not_forall₂

namespace Node

variable {kind : Kind} {p : Position} {fields : List (String × Field)}

/-- **The node that is put together** is the one of that kind and at that place with these fields,
    and without a type. -/
theorem ofFields_eq_ok_iff {n : Node} :
    ofFields kind p fields = .ok n ↔ n.kind = kind ∧ n.mark = .at p ∧ n.fields = fields := by
  constructor
  · intro h
    have built := ofFields_spec kind p fields
    rw [h] at built
    cases built with
    | ok kind_eq mark_eq fields_eq => exact ⟨kind_eq, mark_eq, fields_eq⟩
  · rintro ⟨rfl, hmark, rfl⟩
    have position_eq : n.position = p := by rw [position, hmark, Mark.at]
    have untyped : n.withoutType = n := by
      rw [withoutType, position_eq, ← hmark]
      cases n <;> rfl
    rw [← position_eq, ofFields_fields, untyped]

/-- **The error** that putting together ends with is the one that the fields are refused with. -/
theorem ofFields_eq_error_iff {e : SchemaError} :
    ofFields kind p fields = .error e ↔ kind.Refuses fields e := by
  have built := ofFields_spec kind p fields
  generalize ofFields kind p fields = x at built
  cases built with
  | ok _ _ _ fits holds =>
    exact ⟨fun h => (nomatch h), fun h => absurd holds (h.broken fits)⟩
  | error refuses =>
    constructor
    · intro h
      cases h
      exact refuses
    · intro h
      rw [refuses.unique h]

/-- **Putting together fails** exactly when no node of the kind has fields with these names that
    hold the like. -/
theorem ofFields_fails_iff :
    (∃ e, ofFields kind p fields = .error e) ↔
      ∀ n : Node, n.kind = kind → n.outline ≠ fieldsOutline fields := by
  constructor
  · rintro ⟨e, he⟩ n rfl houtline
    have refuses := ofFields_eq_error_iff.1 he
    exact refuses.broken (fits_of_outline houtline.symm) (holds_of_outline houtline.symm)
  · intro none
    cases h : ofFields kind p fields with
    | ok n =>
      obtain ⟨hkind, -, hfields⟩ := ofFields_eq_ok_iff.1 h
      exact absurd (congrArg fieldsOutline hfields) (none n hkind)
    | error e => exact ⟨e, rfl⟩

end Node

/-! ## 8. Subtrees -/

/-- The nodes that a field holds. -/
def Field.nodes : Field → List Node
  | single n => [n]
  | bunched ns => ns
  | leaf _ => []

namespace Node

/-- The subtrees as the fields list them, in schema order. -/
def subtrees (n : Node) : List Node := n.fields.flatMap fun field => field.2.nodes

/-- **The subtrees** that the fields list are those that the kinds list. -/
theorem subtrees_eq_children (n : Node) : n.subtrees = n.children := by
  cases n <;> simp [subtrees, fields, kind, Kind.schema, contents, Field.nodes, children]

/-- The node with other subtrees, written one after the other into the places of its own. -/
def withChildren (ns : List Node) : Node → Node
  | top m e => top m (ns.headD e)
  | lambda m x a body => lambda m x a (ns.headD body)
  | application m g e => application m (ns.getD 0 g) (ns.getD 1 e)
  | letIn m x a value body => letIn m x a (ns.getD 0 value) (ns.getD 1 body)
  | letRec m _ body => letRec m ns.dropLast (ns.getLastD body)
  | letRecArm m x p pa ra body => letRecArm m x p pa ra (ns.headD body)
  | conditional m c t e => conditional m (ns.getD 0 c) (ns.getD 1 t) (ns.getD 2 e)
  | binary m o l r => binary m o (ns.getD 0 l) (ns.getD 1 r)
  | unary m o e => unary m o (ns.headD e)
  | sequence m _ => sequence m ns
  | tuple m _ => tuple m ns
  | projection m i n e => projection m i n (ns.headD e)
  | matchWith m e _ => matchWith m (ns.headD e) ns.tail
  | matchArm m p body => matchArm m (ns.getD 0 p) (ns.getD 1 body)
  | dataType m d _ body => dataType m d ns.dropLast (ns.getLastD body)
  | patternTuple m _ => patternTuple m ns
  | patternConstructor m c _ tag => patternConstructor m c ns tag
  | other => other

theorem rebuildAll_eq_mapM {m : Type → Type} [Monad m] [LawfulMonad m] (f : Node → m Node)
    (ns : List Node) : rebuildAll f ns = ns.mapM (rebuild f) := by
  induction ns with
  | nil => simp [rebuildAll]
  | cons n ns ih => simp [rebuildAll, ih]

/-- **Rebuilding a tree** rebuilds the subtrees in order, writes them back and hands the node
    on. -/
theorem rebuild_eq {m : Type → Type} [Monad m] [LawfulMonad m] (f : Node → m Node) (n : Node) :
    n.rebuild f = n.children.mapM (rebuild f) >>= fun ns => f (n.withChildren ns) := by
  cases n <;> simp [rebuild, children, withChildren, rebuildAll_eq_mapM]

theorem dropLast_append_getLastD {ns : List Node} {d : Node} (h : ns ≠ []) :
    ns.dropLast ++ [ns.getLastD d] = ns := by
  rw [List.getLastD_eq_getLast?, List.getLast?_eq_some_getLast h, Option.getD_some,
    List.dropLast_append_getLast h]

/-- What is written into the places of as many subtrees are the subtrees from then on. -/
theorem children_withChildren {n : Node} {ns : List Node} (h : ns.length = n.children.length) :
    (n.withChildren ns).children = ns := by
  cases n with
  | literal | reference | builtin | dataConstructor | patternBinder | patternLiteral | indexed =>
    exact (List.eq_nil_of_length_eq_zero h).symm
  | top | lambda | letRecArm | unary | projection =>
    obtain ⟨a, rfl⟩ := List.length_eq_one_iff.1 h
    rfl
  | application | letIn | binary | matchArm =>
    obtain ⟨a, b, rfl⟩ := List.length_eq_two.1 h
    rfl
  | conditional =>
    obtain ⟨a, b, c, rfl⟩ := List.length_eq_three.1 h
    rfl
  | sequence | tuple | patternTuple | patternConstructor => rfl
  | matchWith =>
    obtain ⟨a, ns, rfl⟩ := List.exists_cons_of_length_eq_add_one h
    rfl
  | letRec _ arms | dataType _ _ arms =>
    have nonempty : ns ≠ [] := by
      rintro rfl
      simp [children] at h
    exact dropLast_append_getLastD nonempty

/-- **Named fields and nodes agree.** Taking a node apart and putting it together gives the node
    without its type; what is put together has exactly the given fields; it fails exactly when no
    node of the kind has fields with these names that hold the like, and with the error of the first
    rule that the fields break; and the subtrees that the fields list are those that the kinds list,
    when they are read and when others are written in their places. -/
theorem fields_exact :
    (∀ n : Node, n.fields.map Prod.fst = n.kind.schema.map FieldSpec.name ∧
      ofFields n.kind n.position n.fields = .ok n.withoutType) ∧
    (∀ (kind : Kind) (p : Position) (fields : List (String × Field)),
      (∀ n, ofFields kind p fields = .ok n ↔
        n.kind = kind ∧ n.mark = .at p ∧ n.fields = fields) ∧
      ((∃ e, ofFields kind p fields = .error e) ↔
        ∀ n : Node, n.kind = kind → n.outline ≠ fieldsOutline fields) ∧
      ∀ e, ofFields kind p fields = .error e ↔ kind.Refuses fields e) ∧
    ∀ n : Node, n.subtrees = n.children ∧
      ∀ ns : List Node, ns.length = n.children.length → (n.withChildren ns).subtrees = ns := by
  refine ⟨fun n => ⟨n.fields_names, n.ofFields_fields⟩, fun kind p fields => ⟨?_, ?_, ?_⟩, ?_⟩
  · exact fun n => ofFields_eq_ok_iff
  · exact ofFields_fails_iff
  · exact fun e => ofFields_eq_error_iff
  · intro n
    refine ⟨n.subtrees_eq_children, fun ns h => ?_⟩
    rw [subtrees_eq_children, children_withChildren h]

/-- An application with its fields the other way round is refused at the first of them, and of a
    sequence every statement is replaced. -/
theorem fields_exact_swappedFields :
    ofFields .application ⟨1, 1⟩
        [("argument", .single (reference (.at ⟨1, 3⟩) "x")),
          ("function", .single (reference (.at ⟨1, 1⟩) "f"))] =
      .error (.unexpectedField .application 0 "function" "argument") ∧
    ((sequence (.at ⟨1, 1⟩) [reference (.at ⟨1, 1⟩) "x", reference (.at ⟨1, 4⟩) "y"]).withChildren
        [reference (.at ⟨1, 4⟩) "y", reference (.at ⟨1, 1⟩) "x"]).subtrees =
      [reference (.at ⟨1, 4⟩) "y", reference (.at ⟨1, 1⟩) "x"] :=
  ⟨((fields_exact.2.1 _ _ _).2.2 _).2
      (@Kind.Refuses.name _ _ 0 ⟨"function", .single⟩ ("argument", _) rfl
        (.head fun h => absurd h.1 (by decide)) (by decide)),
    (fields_exact.2.2 _).2 _ rfl⟩

end Node

end ClosureML
