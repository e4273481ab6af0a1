import ClosureML.Proofs.Names.Numbered
import ClosureML.Proofs.Syntax.WordsSpelled
import ClosureML.Proofs.Types.MostGeneralUnifier
import Mathlib.Data.Set.Function

/-!
# Written forms tell types apart

A type is written without parentheses around the results of functions, and the parentheses of a
tuple are those of a function that is a parameter. Still a written form can be read in one way only,
whatever stands behind it, as long as no tuple has exactly one element and the names of data types
can be told from those of variables and base types. So two types have the same written form exactly
when they are the same, and the same canonical form exactly when they are so up to the names of
their variables.

* `Ty.IsWritable`: the types whose written forms can be read;
* `IsSpelling`: names for variables that can be told apart and from everything else;
* `Ty.Reads`: no other type has the same characters in front of what may stand behind a type;
* `Ty.IsRenaming`: a bijection between the variables of two types that turns one into the other.

Main statements: `Ty.reads_of_isWritable` (a written form can be read in one way), and
`Ty.canonical_eq_iff`.
-/

namespace ClosureML

/-! ## 1. Characters of a written form -/

namespace Ty

/-- A type whose written form can be read: the names of its data types are capitalised, and none of
    its tuples has exactly one element. -/
inductive IsWritable : Ty → Prop where
  | base {b : BaseType} : IsWritable (.base b)
  | data {name : String} (h : IsCapitalised name) : IsWritable (.data name)
  | function {p r : Ty} (hp : IsWritable p) (hr : IsWritable r) : IsWritable (.function p r)
  | tuple {ts : List Ty} (hlength : ts.length ≠ 1) (hts : ∀ t ∈ ts, IsWritable t) :
      IsWritable (.tuple ts)
  | var {v : TypeVar} : IsWritable (.var v)

/-- The characters of the written form. -/
def chars (name : TypeVar → String) (t : Ty) : List Char := (t.render name).toList

/-- The characters of the written form as a parameter, where a function stands in parentheses. -/
def parameterChars (name : TypeVar → String) (t : Ty) : List Char :=
  if t.isFunction then '(' :: (t.chars name ++ [')']) else t.chars name

/-- The characters behind an element of a tuple, or of another list that ends with `close`. -/
def moreChars (name : TypeVar → String) (close : Char) : List Ty → List Char
  | [] => [close]
  | t :: ts => ',' :: ' ' :: (t.chars name ++ moreChars name close ts)

/-- The characters behind the sign that opens a tuple, or another list that ends with `close`. -/
def elementsChars (name : TypeVar → String) (close : Char) : List Ty → List Char
  | [] => [close]
  | t :: ts => t.chars name ++ moreChars name close ts

variable {name : TypeVar → String}

theorem chars_function (name : TypeVar → String) (p r : Ty) (rest : List Char) :
    (function p r).chars name ++ rest =
      p.parameterChars name ++ ' ' :: '-' :: '>' :: ' ' :: (r.chars name ++ rest) := by
  rw [chars, render, parameterChars, chars, chars]
  split <;> simp

theorem elementsChars_eq (close : Char) : ∀ ts : List Ty,
    elementsChars name close ts = (", ".intercalate (renderAll name ts)).toList ++ [close]
  | [] => rfl
  | [t] => by simp [elementsChars, moreChars, renderAll, chars]
  | t :: u :: ts => by
    have ih := elementsChars_eq close (u :: ts)
    rw [elementsChars, renderAll, String.toList_intercalate] at ih
    rw [elementsChars, moreChars, ih, renderAll, renderAll, String.toList_intercalate]
    simp [chars, List.intercalate]

theorem chars_tuple (ts : List Ty) : (tuple ts).chars name = '(' :: elementsChars name ')' ts := by
  rw [elementsChars_eq, chars, render]
  simp

/-- The types between the parentheses of a parameter. -/
def enclosed? : Ty → Option (List Ty)
  | function p r => some [function p r]
  | tuple ts => some ts
  | _ => none

theorem enclosed_cases {t : Ty} {ts : List Ty} (h : t.enclosed? = some ts) :
    t.isFunction = true ∧ ts = [t] ∨ t = tuple ts := by
  cases t <;> cases h
  · exact .inl ⟨rfl, rfl⟩
  · exact .inr rfl

/-- A parameter in parentheses is written as the tuple of what they enclose. -/
theorem parameterChars_of_enclosed {t : Ty} {ts : List Ty} (h : t.enclosed? = some ts) :
    t.parameterChars name = '(' :: elementsChars name ')' ts := by
  rcases enclosed_cases h with ⟨hfunction, rfl⟩ | rfl
  · exact if_pos hfunction
  · exact chars_tuple ts

/-- What is enclosed can be read where the whole can. -/
theorem IsWritable.of_enclosed {t : Ty} {ts : List Ty} (ht : t.IsWritable)
    (h : t.enclosed? = some ts) : ∀ u ∈ ts, u.IsWritable := by
  rcases enclosed_cases h with ⟨-, rfl⟩ | rfl
  · exact fun u hu => List.mem_singleton.1 hu ▸ ht
  · cases ht with
    | tuple _ hts => exact hts

theorem IsWritable.length_ne_one {ts : List Ty} (h : IsWritable (.tuple ts)) : ts.length ≠ 1 := by
  cases h with
  | tuple hlength _ => exact hlength

end Ty

/-! ## 2. Words in a written form -/

/-- A prime or what begins a word, and then characters of a word. -/
def IsNameText (cs : List Char) : Prop :=
  ∃ c rest, cs = c :: rest ∧ (c = '\x27' ∨ startsWord c = true) ∧
    ∀ d ∈ rest, isWordCharacter d = true

/-- What stands behind does not continue a name. -/
def EndsName (rest : List Char) : Prop := ∀ c ∈ rest.head?, isWordCharacter c = false

/-- What stands behind continues neither a name nor, with an arrow, a type. -/
structure ClosesType (rest : List Char) : Prop where
  endsName : EndsName rest
  noArrow : ∀ cs, rest ≠ ' ' :: '-' :: cs

theorem closesType_nil : ClosesType [] := ⟨nofun, nofun⟩

section

variable {p : Char → Bool} {cs cs' rest rest' : List Char}

theorem takeWhile_class (hcs : ∀ d ∈ cs, p d = true) (hrest : ∀ c ∈ rest.head?, p c = false) :
    (cs ++ rest).takeWhile p = cs := by
  rw [List.takeWhile_append_of_pos hcs]
  cases rest with
  | nil => rw [List.takeWhile_nil, List.append_nil]
  | cons d ds => rw [List.takeWhile_cons, hrest d rfl, if_neg Bool.false_ne_true, List.append_nil]

/-- Characters of a class reach as far as the first one that is out of it. -/
theorem append_inj_of_class (hcs : ∀ d ∈ cs, p d = true) (hcs' : ∀ d ∈ cs', p d = true)
    (hrest : ∀ c ∈ rest.head?, p c = false) (hrest' : ∀ c ∈ rest'.head?, p c = false)
    (heq : cs ++ rest = cs' ++ rest') : cs = cs' ∧ rest = rest' := by
  have hsame : cs = cs' := by
    rw [← takeWhile_class hcs hrest, heq, takeWhile_class hcs' hrest']
  subst hsame
  exact ⟨rfl, List.append_cancel_left heq⟩

end

/-- A name reaches as far as its characters do. -/
theorem IsNameText.append_inj {cs cs' rest rest' : List Char} (h : IsNameText cs)
    (h' : IsNameText cs') (hrest : EndsName rest) (hrest' : EndsName rest')
    (heq : cs ++ rest = cs' ++ rest') : cs = cs' ∧ rest = rest' := by
  obtain ⟨c, ds, rfl, -, hds⟩ := h
  obtain ⟨c', ds', rfl, -, hds'⟩ := h'
  rw [List.cons_append, List.cons_append] at heq
  obtain ⟨rfl, htail⟩ := List.cons.inj heq
  obtain ⟨rfl, rfl⟩ := append_inj_of_class hds hds' hrest hrest' htail
  exact ⟨rfl, rfl⟩

/-- Names for numbers that differ from each other, and from words by the prime that they begin
    with. -/
structure IsSpelling (spell : Nat → String) : Prop where
  injective : Function.Injective spell
  form : ∀ n, ∃ cs, (spell n).toList = '\x27' :: cs ∧ ∀ c ∈ cs, isWordCharacter c = true

theorem IsName.isNameText {kind : TokenKind} {x : String} (h : IsName kind x) :
    IsNameText x.toList := by
  have hstart := h.start
  have hword := h.word
  rw [IsWord] at hword
  cases hx : x.toList with
  | nil => simp [hx] at hstart
  | cons c cs =>
    rw [hx] at hstart hword
    exact ⟨c, cs, rfl, .inr (by simpa using hstart),
      fun d hd => hword d (List.mem_cons_of_mem _ hd)⟩

/-- The name of a data type begins with a capital letter. -/
theorem IsCapitalised.begins {x : String} (h : IsCapitalised x) :
    ∃ c cs, x.toList = c :: cs ∧ isCapital c = true := by
  have hkind := h.kind_eq
  cases hx : x.toList with
  | nil =>
    have hstart := h.start
    rw [hx] at hstart
    cases hstart
  | cons c cs =>
    rw [hx, wordKind] at hkind
    refine ⟨c, cs, rfl, ?_⟩
    split at hkind
    · cases hkind
    · split at hkind
      · cases hkind
      · split at hkind
        · next hcapital => exact hcapital
        · cases hkind

/-- A name of a variable is no word. -/
theorem IsSpelling.ne_name {spell : Nat → String} (h : IsSpelling spell) {kind : TokenKind}
    {x : String} (hx : IsName kind x) (n : Nat) : spell n ≠ x := by
  rintro rfl
  obtain ⟨cs, hcs, -⟩ := h.form n
  have hstart := hx.start
  rw [hcs] at hstart
  exact absurd hstart (by simp; decide)

namespace Ty

variable {spell : Nat → String} {num num' : TypeVar → Nat}

/-- The type with its variables known by their numbers. -/
abbrev numbered (num : TypeVar → Nat) (t : Ty) : SimpleType := t.interpret fun v => .var (num v)

/-- What needs no parentheses anywhere is written as one name. -/
theorem isNameText_chars (num : TypeVar → Nat) (hspell : IsSpelling spell) {t : Ty}
    (ht : t.IsWritable) (hnone : t.enclosed? = none) : IsNameText (t.chars (spell ∘ num)) := by
  cases ht with
  | @base b => exact (isIdentifier_base b).isNameText
  | data h => exact h.isNameText
  | function => cases hnone
  | tuple => cases hnone
  | @var v =>
    obtain ⟨cs, hcs, hword⟩ := hspell.form (num v)
    exact ⟨'\x27', cs, hcs, .inl rfl, hword⟩

theorem parameterChars_of_not_enclosed {name : TypeVar → String} {t : Ty}
    (h : t.enclosed? = none) : t.parameterChars name = t.chars name := by
  cases t <;> first | rfl | cases h

/-- **Types that are written as the same name are the same.** -/
theorem numbered_eq_of_name (hspell : IsSpelling spell) {t u : Ty} (ht : t.IsWritable)
    (hu : u.IsWritable) (htn : t.enclosed? = none) (hun : u.enclosed? = none)
    (h : t.chars (spell ∘ num) = u.chars (spell ∘ num')) : t.numbered num = u.numbered num' := by
  have hrender : t.render (spell ∘ num) = u.render (spell ∘ num') := String.toList_inj.1 h
  -- a base type is an identifier, a data type is capitalised, and a variable has its prime
  have hkinds : ∀ {b : BaseType} {d : String}, IsCapitalised d → b.text ≠ d := by
    rintro b d hd rfl
    cases (isIdentifier_base b).kind_eq.symm.trans hd.kind_eq
  cases ht with
  | function => cases htn
  | tuple => cases htn
  | @base b =>
    cases hu with
    | function => cases hun
    | tuple => cases hun
    | @base b' =>
      have : b = b' := by
        simp only [render] at hrender
        revert hrender
        cases b <;> cases b' <;> decide
      rw [this, numbered, numbered, interpret, interpret]
    | data hd => exact absurd hrender (hkinds hd)
    | @var v => exact absurd hrender.symm (hspell.ne_name (isIdentifier_base b) _)
  | data hd =>
    cases hu with
    | function => cases hun
    | tuple => cases hun
    | base => exact absurd hrender.symm (hkinds hd)
    | data hd' => exact congrArg SimpleType.data hrender
    | @var v => exact absurd hrender.symm (hspell.ne_name hd _)
  | @var v =>
    cases hu with
    | function => cases hun
    | tuple => cases hun
    | @base b => exact absurd hrender (hspell.ne_name (isIdentifier_base b) _)
    | data hd => exact absurd hrender (hspell.ne_name hd _)
    | @var w => exact congrArg SimpleType.var (hspell.injective hrender)

/-! ## 3. Reading a written form -/

/-- No other type is written with the same characters in front of what may stand behind a type. -/
def Reads (spell : Nat → String) (num num' : TypeVar → Nat) (t : Ty) : Prop :=
  ∀ ⦃u : Ty⦄ ⦃rest rest' : List Char⦄, u.IsWritable → ClosesType rest → ClosesType rest' →
    t.chars (spell ∘ num) ++ rest = u.chars (spell ∘ num') ++ rest' →
      t.numbered num = u.numbered num' ∧ rest = rest'

/-- No other type is written as a parameter with the same characters, whatever stands behind it. -/
def ReadsAsParameter (spell : Nat → String) (num num' : TypeVar → Nat) (t : Ty) : Prop :=
  ∀ ⦃u : Ty⦄ ⦃rest rest' : List Char⦄, u.IsWritable → EndsName rest → EndsName rest' →
    t.parameterChars (spell ∘ num) ++ rest = u.parameterChars (spell ∘ num') ++ rest' →
      t.numbered num = u.numbered num' ∧ rest = rest'

/-- What a list of types can end with. -/
def ClosesList (close : Char) : Prop := close = ')' ∨ close = ']'

instance (close : Char) : Decidable (ClosesList close) :=
  inferInstanceAs (Decidable (close = ')' ∨ close = ']'))

theorem ClosesList.ne_comma {close : Char} (h : ClosesList close) : close ≠ ',' := by
  rcases h with rfl | rfl <;> decide

theorem ClosesList.closesType {close : Char} (h : ClosesList close) (rest : List Char) :
    ClosesType (close :: rest) := by
  rcases h with rfl | rfl
  · exact ⟨fun c hc => Option.some.inj hc ▸ rfl, nofun⟩
  · exact ⟨fun c hc => Option.some.inj hc ▸ rfl, nofun⟩

theorem closesType_moreChars (name : TypeVar → String) {close : Char} (hclose : ClosesList close)
    (ts : List Ty) (rest : List Char) : ClosesType (moreChars name close ts ++ rest) := by
  cases ts with
  | nil => exact hclose.closesType rest
  | cons t ts => exact ⟨fun c hc => Option.some.inj hc ▸ rfl, nofun⟩

/-- A written form begins with a letter, the prime of a variable or a parenthesis that opens, so
    with none of the signs that close a list, and not as what stands for a missing type. -/
theorem chars_begin (num : TypeVar → Nat) (hspell : IsSpelling spell) {t : Ty} (ht : t.IsWritable) :
    ∃ c cs, t.chars (spell ∘ num) = c :: cs ∧ ¬ ClosesList c ∧ c ≠ '_' := by
  have hparameter : ∀ {t : Ty}, t.IsWritable →
      ∃ c cs, t.parameterChars (spell ∘ num) = c :: cs ∧ ¬ ClosesList c ∧ c ≠ '_' := by
    intro t ht
    cases ht with
    | @base b =>
      have hbegins : ∃ c cs, b.text.toList = c :: cs ∧ ¬ ClosesList c ∧ c ≠ '_' := by
        cases b with
        | int => exact ⟨'i', ['n', 't'], by decide, by decide, by decide⟩
        | bool => exact ⟨'b', ['o', 'o', 'l'], by decide, by decide, by decide⟩
        | unit => exact ⟨'u', ['n', 'i', 't'], by decide, by decide, by decide⟩
      exact hbegins
    | data hd =>
      obtain ⟨c, cs, hcs, hc⟩ := hd.begins
      refine ⟨c, cs, hcs, ?_, ?_⟩
      · rintro (rfl | rfl) <;> exact absurd hc (by decide)
      · rintro rfl
        exact absurd hc (by decide)
    | function => exact ⟨_, _, parameterChars_of_enclosed rfl, by decide, by decide⟩
    | tuple => exact ⟨_, _, parameterChars_of_enclosed rfl, by decide, by decide⟩
    | @var v =>
      obtain ⟨cs, hcs, -⟩ := hspell.form (num v)
      exact ⟨'\x27', cs, hcs, by decide, by decide⟩
  cases ht with
  | @function p r hp hr =>
    obtain ⟨c, cs, hcs, hc⟩ := hparameter hp
    have heq := chars_function (spell ∘ num) p r []
    rw [hcs, List.append_nil, List.cons_append] at heq
    exact ⟨c, _, heq, hc⟩
  | base => exact hparameter .base
  | data h => exact hparameter (.data h)
  | tuple hlength hts => exact hparameter (.tuple hlength hts)
  | var => exact hparameter .var

/-- The further elements of a list can be read if each of them can. -/
theorem moreChars_inj {close : Char} (hclose : ClosesList close) {rest rest' : List Char} :
    ∀ {ts us : List Ty}, (∀ t ∈ ts, t.Reads spell num num') → (∀ u ∈ us, u.IsWritable) →
    moreChars (spell ∘ num) close ts ++ rest = moreChars (spell ∘ num') close us ++ rest' →
      ts.map (numbered num) = us.map (numbered num') ∧ rest = rest'
  | [], [], _, _, h => ⟨rfl, (List.cons.inj h).2⟩
  | [], _ :: _, _, _, h => absurd (List.cons.inj h).1 hclose.ne_comma
  | _ :: _, [], _, _, h => absurd (List.cons.inj h).1.symm hclose.ne_comma
  | t :: ts, u :: us, hts, hus, h => by
    obtain ⟨ht, hts⟩ := List.forall_mem_cons.1 hts
    obtain ⟨hu, hus⟩ := List.forall_mem_cons.1 hus
    rw [moreChars, moreChars] at h
    simp only [List.cons_append, List.append_assoc, List.cons.injEq, true_and] at h
    obtain ⟨htu, hmore⟩ :=
      ht hu (closesType_moreChars _ hclose _ _) (closesType_moreChars _ hclose _ _) h
    obtain ⟨htus, hrest⟩ := moreChars_inj hclose hts hus hmore
    exact ⟨by rw [List.map_cons, List.map_cons, htu, htus], hrest⟩

/-- **The elements of a list can be read** if each of them can. -/
theorem elementsChars_inj (hspell : IsSpelling spell) {close : Char} (hclose : ClosesList close)
    {rest rest' : List Char} {ts us : List Ty} (hwritable : ∀ t ∈ ts, t.IsWritable)
    (hts : ∀ t ∈ ts, t.Reads spell num num') (hus : ∀ u ∈ us, u.IsWritable)
    (h : elementsChars (spell ∘ num) close ts ++ rest =
      elementsChars (spell ∘ num') close us ++ rest') :
    ts.map (numbered num) = us.map (numbered num') ∧ rest = rest' := by
  cases ts with
  | nil =>
    cases us with
    | nil => exact ⟨rfl, (List.cons.inj h).2⟩
    | cons u us =>
      obtain ⟨c, cs, hcs, hc, -⟩ := chars_begin num' hspell (List.forall_mem_cons.1 hus).1
      rw [elementsChars, elementsChars, hcs] at h
      exact absurd ((List.cons.inj h).1 ▸ hclose) hc
  | cons t ts =>
    cases us with
    | nil =>
      obtain ⟨c, cs, hcs, hc, -⟩ := chars_begin num hspell (List.forall_mem_cons.1 hwritable).1
      rw [elementsChars, elementsChars, hcs] at h
      exact absurd ((List.cons.inj h).1.symm ▸ hclose) hc
    | cons u us =>
      obtain ⟨ht, hts⟩ := List.forall_mem_cons.1 hts
      obtain ⟨hu, hus⟩ := List.forall_mem_cons.1 hus
      rw [elementsChars, elementsChars, List.append_assoc, List.append_assoc] at h
      obtain ⟨htu, hmore⟩ :=
        ht hu (closesType_moreChars _ hclose _ _) (closesType_moreChars _ hclose _ _) h
      obtain ⟨htus, hrest⟩ := moreChars_inj hclose hts hus hmore
      exact ⟨by rw [List.map_cons, List.map_cons, htu, htus], hrest⟩

/-- Parameters that enclose the same types are the same: a function never encloses what a tuple
    does, which would be a single element. -/
theorem numbered_eq_of_enclosed {t u : Ty} {ts us : List Ty} (ht : t.IsWritable) (hu : u.IsWritable)
    (hts : t.enclosed? = some ts) (hus : u.enclosed? = some us)
    (h : ts.map (numbered num) = us.map (numbered num')) : t.numbered num = u.numbered num' := by
  have hlength := congrArg List.length h
  rw [List.length_map, List.length_map] at hlength
  rcases enclosed_cases hts with ⟨-, rfl⟩ | rfl
  · rcases enclosed_cases hus with ⟨-, rfl⟩ | rfl
    · exact (List.cons.inj h).1
    · exact absurd hlength.symm hu.length_ne_one
  · rcases enclosed_cases hus with ⟨-, rfl⟩ | rfl
    · exact absurd hlength ht.length_ne_one
    · rw [numbered, numbered, interpret, interpret, interpretAll_eq_map, interpretAll_eq_map]
      exact congrArg SimpleType.tuple h

/-- **A parameter can be read** if everything that its parentheses enclose can. -/
theorem readsAsParameter (hspell : IsSpelling spell) {t : Ty} (ht : t.IsWritable)
    (henclosed : ∀ ts ∈ t.enclosed?, ∀ t ∈ ts, t.Reads spell num num') :
    t.ReadsAsParameter spell num num' := by
  intro u rest rest' hu hrest hrest' h
  cases hts : t.enclosed? with
  | none =>
    have hname := isNameText_chars num hspell ht hts
    rw [parameterChars_of_not_enclosed hts] at h
    cases hus : u.enclosed? with
    | none =>
      rw [parameterChars_of_not_enclosed hus] at h
      obtain ⟨hchars, hrest⟩ :=
        hname.append_inj (isNameText_chars num' hspell hu hus) hrest hrest' h
      exact ⟨numbered_eq_of_name hspell ht hu hts hus hchars, hrest⟩
    | some us =>
      obtain ⟨c, cs, hcs, hc, -⟩ := hname
      rw [hcs, parameterChars_of_enclosed hus] at h
      obtain rfl := (List.cons.inj h).1
      exact absurd hc (by decide)
  | some ts =>
    rw [parameterChars_of_enclosed hts] at h
    cases hus : u.enclosed? with
    | none =>
      obtain ⟨c, cs, hcs, hc, -⟩ := isNameText_chars num' hspell hu hus
      rw [parameterChars_of_not_enclosed hus, hcs] at h
      obtain rfl := (List.cons.inj h).1
      exact absurd hc (by decide)
    | some us =>
      rw [parameterChars_of_enclosed hus, List.cons_append, List.cons_append] at h
      obtain ⟨heq, hrest⟩ :=
        elementsChars_inj hspell (.inl rfl) (ht.of_enclosed hts) (henclosed ts hts)
        (hu.of_enclosed hus) (List.cons.inj h).2
      exact ⟨numbered_eq_of_enclosed ht hu hts hus heq, hrest⟩

/-- What is no function is written the same as a parameter. -/
theorem parameterChars_of_not_function {name : TypeVar → String} {t : Ty}
    (h : t.isFunction = false) : t.parameterChars name = t.chars name := by
  rw [parameterChars, h, if_neg Bool.false_ne_true]

/-- Behind a parameter with an arrow no type ends. -/
theorem not_closesType_arrow {cs : List Char} : ¬ ClosesType (' ' :: '-' :: '>' :: ' ' :: cs) :=
  fun h =>
  h.noArrow _ rfl

theorem endsName_arrow {cs : List Char} : EndsName (' ' :: '-' :: '>' :: ' ' :: cs) :=
  fun c hc => by
  rw [← Option.some.inj hc]
  decide

/-- **A type that is no function can be read** if it can be as a parameter. -/
theorem ReadsAsParameter.reads {t : Ty} (ht : t.ReadsAsParameter spell num num')
    (hfunction : t.isFunction = false) : t.Reads spell num num' := by
  intro u rest rest' hu hrest hrest' h
  rw [← parameterChars_of_not_function hfunction] at h
  cases hu' : u.isFunction with
  | false =>
    rw [← parameterChars_of_not_function hu'] at h
    exact ht hu hrest.endsName hrest'.endsName h
  | true =>
    cases hu with
    | function hp' hr' =>
      rw [chars_function] at h
      obtain ⟨-, rfl⟩ := ht hp' hrest.endsName endsName_arrow h
      exact absurd hrest not_closesType_arrow
    | _ => cases hu'

/-- **A function can be read** if its parameter, as such, and its result can. -/
theorem reads_function {p r : Ty} (hp : p.ReadsAsParameter spell num num')
    (hr : r.Reads spell num num') : (function p r).Reads spell num num' := by
  intro u rest rest' hu hrest hrest' h
  rw [chars_function] at h
  cases hu' : u.isFunction with
  | false =>
    rw [← parameterChars_of_not_function hu'] at h
    obtain ⟨-, rfl⟩ := hp hu endsName_arrow hrest'.endsName h
    exact absurd hrest' not_closesType_arrow
  | true =>
    cases hu with
    | function hp' hr' =>
      rw [chars_function] at h
      obtain ⟨hparameter, htail⟩ := hp hp' endsName_arrow endsName_arrow h
      simp only [List.cons.injEq, true_and] at htail
      obtain ⟨hresult, heq⟩ := hr hr' hrest hrest' htail
      exact ⟨congrArg₂ SimpleType.function hparameter hresult, heq⟩
    | _ => cases hu'

mutual

/-- **A written form can be read in one way only**, as a type and as a parameter. -/
theorem reads_of_isWritable (hspell : IsSpelling spell) : ∀ t : Ty, t.IsWritable →
    t.Reads spell num num' ∧ t.ReadsAsParameter spell num num'
  | base b, ht =>
    have hparameter := readsAsParameter hspell ht nofun
    ⟨hparameter.reads rfl, hparameter⟩
  | data d, ht =>
    have hparameter := readsAsParameter hspell ht nofun
    ⟨hparameter.reads rfl, hparameter⟩
  | var v, ht =>
    have hparameter := readsAsParameter hspell ht nofun
    ⟨hparameter.reads rfl, hparameter⟩
  | function p r, .function hp hr => by
    have hreads :=
      reads_function (reads_of_isWritable hspell p hp).2 (reads_of_isWritable hspell r hr).1
    refine ⟨hreads, readsAsParameter hspell (.function hp hr) fun ts hts => ?_⟩
    cases hts
    exact fun t ht => List.mem_singleton.1 ht ▸ hreads
  | tuple ts, .tuple hlength hts => by
    have hparameter := readsAsParameter hspell (.tuple hlength hts) fun us hus => by
      cases hus
      exact readsAll_of_isWritable hspell ts hts
    exact ⟨hparameter.reads rfl, hparameter⟩

theorem readsAll_of_isWritable (hspell : IsSpelling spell) : ∀ ts : List Ty,
    (∀ t ∈ ts, t.IsWritable) → ∀ t ∈ ts, t.Reads spell num num'
  | [], _ => nofun
  | t :: ts, hts =>
    have ⟨ht, hts⟩ := List.forall_mem_cons.1 hts
    List.forall_mem_cons.2
      ⟨(reads_of_isWritable hspell t ht).1, readsAll_of_isWritable hspell ts hts⟩

end

/-- Types with the same written form are the same up to the numbers of their variables. -/
theorem numbered_eq_of_render (hspell : IsSpelling spell) {t u : Ty} (ht : t.IsWritable)
    (hu : u.IsWritable) (h : t.render (spell ∘ num) = u.render (spell ∘ num')) :
    t.numbered num = u.numbered num' := by
  have hchars : t.chars (spell ∘ num) ++ [] = u.chars (spell ∘ num') ++ [] := by
    rw [chars, chars, h]
  exact ((reads_of_isWritable hspell t ht).1 hu closesType_nil closesType_nil hchars).1

/-! ## 4. The names of variables -/

theorem isWordCharacter_of_isDigit {c : Char} (h : c.isDigit = true) :
    isWordCharacter c = true := by
  have hdigit : isDigit c = true := by
    simpa [isDigit, Char.isDigit, Char.le_def] using h
  rw [isWordCharacter, hdigit, Bool.or_true]

/-- The numbers behind a prime and a letter spell variables. -/
theorem isSpelling_numbers : IsSpelling fun n => "'t" ++ toString n where
  injective n k h := by
    have h := congrArg String.toList h
    rw [String.toList_append, String.toList_append] at h
    exact toString_nat_inj (List.append_cancel_left h)
  form n := by
    refine ⟨'t' :: (toString n).toList, by rw [String.toList_append]; rfl, ?_⟩
    exact List.forall_mem_cons.2
      ⟨by decide, fun c hc => isWordCharacter_of_isDigit (isDigit_of_mem_toString hc)⟩

/-- **The plain written form can be read** in front of whatever may stand behind a type. -/
theorem chars_text_inj {t u : Ty} {rest rest' : List Char} (ht : t.IsWritable) (hu : u.IsWritable)
    (hrest : ClosesType rest) (hrest' : ClosesType rest')
    (h : t.chars TypeVar.text ++ rest = u.chars TypeVar.text ++ rest') : t = u ∧ rest = rest' := by
  obtain ⟨hlift, hrest⟩ := (reads_of_isWritable isSpelling_numbers t ht).1 hu hrest hrest' h
  exact ⟨eq_of_lift_eq t u hlift, hrest⟩

/-- **The plain written forms of several types can be read**, with commas between them. -/
theorem elementsChars_text_inj {close : Char} (hclose : ClosesList close) {ts us : List Ty}
    {rest rest' : List Char} (hts : ∀ t ∈ ts, t.IsWritable) (hus : ∀ u ∈ us, u.IsWritable)
    (h : elementsChars TypeVar.text close ts ++ rest =
      elementsChars TypeVar.text close us ++ rest') : ts = us ∧ rest = rest' := by
  obtain ⟨hlift, hrest⟩ := elementsChars_inj isSpelling_numbers hclose hts
    (readsAll_of_isWritable isSpelling_numbers ts hts) hus h
  exact ⟨List.map_injective_iff.2 (fun t u => eq_of_lift_eq t u) hlift, hrest⟩

/-- The letter of a canonical name. -/
def canonicalLetter (n : Nat) : Char := Char.ofNat ('a'.toNat + n % 26)

/-- What stands behind the letter of a canonical name. -/
def canonicalSuffix (n : Nat) : String := if n / 26 = 0 then "" else toString (n / 26)

theorem toList_canonicalName (n : Nat) :
    (canonicalName n).toList = '\x27' :: canonicalLetter n :: (canonicalSuffix n).toList := by
  rw [canonicalName, canonicalSuffix, canonicalLetter]
  split <;> simp

/-- The letters are the 26 small ones. -/
theorem canonicalLetter_spec (n : Nat) :
    (canonicalLetter n).toNat = 97 + n % 26 ∧ isWordCharacter (canonicalLetter n) = true := by
  have hletters : ∀ k < 26, (Char.ofNat ('a'.toNat + k)).toNat = 97 + k ∧
      isWordCharacter (Char.ofNat ('a'.toNat + k)) = true := by decide
  exact hletters _ (Nat.mod_lt _ (by decide))

theorem canonicalSuffix_inj {n k : Nat} (h : canonicalSuffix n = canonicalSuffix k) :
    n / 26 = k / 26 := by
  have hne : ∀ m : Nat, toString m ≠ "" := fun m hm => by
    have hdigits := toList_toString m
    rw [hm] at hdigits
    exact Nat.toDigits_ne_nil hdigits.symm
  rw [canonicalSuffix, canonicalSuffix] at h
  split at h
  · next hn =>
    split at h
    · next hk => rw [hn, hk]
    · exact absurd h.symm (hne _)
  · split at h
    · exact absurd h (hne _)
    · exact toString_nat_inj (congrArg String.toList h)

/-- **The canonical names spell variables**, however many there are. -/
theorem isSpelling_canonicalName : IsSpelling canonicalName where
  injective n k h := by
    have h := congrArg String.toList h
    rw [toList_canonicalName, toList_canonicalName] at h
    obtain ⟨hletter, hsuffix⟩ := List.cons.inj (List.cons.inj h).2
    have hmod := congrArg Char.toNat hletter
    rw [(canonicalLetter_spec n).1, (canonicalLetter_spec k).1] at hmod
    have hdiv := canonicalSuffix_inj (String.toList_inj.1 hsuffix)
    omega
  form n := by
    refine ⟨_, toList_canonicalName n,
      List.forall_mem_cons.2 ⟨(canonicalLetter_spec n).2, fun c hc => ?_⟩⟩
    rw [canonicalSuffix] at hc
    split at hc
    · cases hc
    · exact isWordCharacter_of_isDigit (isDigit_of_mem_toString hc)

/-! ## 5. Renaming -/

/-- The bijection between the variables of two types turns one type into the other. -/
structure IsRenaming (f : TypeVar → TypeVar) (t u : Ty) : Prop where
  bijective : Set.BijOn f {v | v ∈ t.occurrences} {v | v ∈ u.occurrences}
  turns : t.substitute (fun v => some (var (f v))) = u

mutual

/-- Renaming the variables renames their occurrences. -/
theorem occurrences_rename (f : TypeVar → TypeVar) : ∀ t : Ty,
    (t.substitute fun v => some (var (f v))).occurrences = t.occurrences.map f
  | base _ => rfl
  | data _ => rfl
  | function p r => by
    simp only [substitute, occurrences, occurrences_rename f p, occurrences_rename f r,
      List.map_append]
  | tuple ts => by simp only [substitute, occurrences, occurrencesAll_rename f ts]
  | var _ => rfl

theorem occurrencesAll_rename (f : TypeVar → TypeVar) : ∀ ts : List Ty,
    occurrencesAll (substituteAll (fun v => some (var (f v))) ts) = (occurrencesAll ts).map f
  | [] => rfl
  | t :: ts => by
    simp only [substituteAll, occurrencesAll, occurrences_rename f t, occurrencesAll_rename f ts,
      List.map_append]

end

theorem isFunction_rename (f : TypeVar → TypeVar) (t : Ty) :
    (t.substitute fun v => some (var (f v))).isFunction = t.isFunction := by
  cases t <;> rfl

mutual

/-- A renamed type is written with the names of what its variables are renamed to. -/
theorem render_rename {name name' : TypeVar → String} {f : TypeVar → TypeVar} :
    ∀ t : Ty, (∀ v ∈ t.occurrences, name' (f v) = name v) →
      (t.substitute fun v => some (var (f v))).render name' = t.render name
  | base _, _ => rfl
  | data _, _ => rfl
  | function p r, h => by
    rw [substitute, render, render, isFunction_rename,
      render_rename p fun v hv => h v (by simp [occurrences, hv]),
      render_rename r fun v hv => h v (by simp [occurrences, hv])]
  | tuple ts, h => by
    rw [substitute, render, render,
      renderAll_rename ts fun v hv => h v (by simpa [occurrences] using hv)]
  | var v, h => h v (by simp [occurrences])

theorem renderAll_rename {name name' : TypeVar → String} {f : TypeVar → TypeVar} :
    ∀ ts : List Ty, (∀ v ∈ occurrencesAll ts, name' (f v) = name v) →
      renderAll name' (substituteAll (fun v => some (var (f v))) ts) = renderAll name ts
  | [], _ => rfl
  | t :: ts, h => by
    rw [substituteAll, renderAll, renderAll,
      render_rename t fun v hv => h v (by simp [occurrencesAll, hv]),
      renderAll_rename ts fun v hv => h v (by simp [occurrencesAll, hv])]

end

/-- The variables of a type in the order of their first appearance. -/
abbrev order (t : Ty) : List TypeVar := t.occurrences.eraseDups

theorem canonical_eq (t : Ty) : t.canonical = t.render (canonicalName ∘ t.order.idxOf) := rfl

theorem getElem?_order {t : Ty} {v : TypeVar} (hv : v ∈ t.occurrences) :
    t.order[t.order.idxOf v]? = some v :=
  List.getElem?_idxOf (List.mem_eraseDups.2 hv)

/-- **Renaming keeps the order of first appearance.** -/
theorem idxOf_eraseDups_map {f : TypeVar → TypeVar} : ∀ {l : List TypeVar},
    Set.InjOn f {v | v ∈ l} → ∀ v ∈ l, (l.map f).eraseDups.idxOf (f v) = l.eraseDups.idxOf v
  | [], _, _, hv => nomatch hv
  | w :: ws, hinj, v, hv => by
    rw [List.map_cons, List.eraseDups_cons, List.eraseDups_cons, List.idxOf_cons, List.idxOf_cons]
    by_cases hwv : w = v
    · simp [hwv]
    -- what is left of the renamed list is what is left of the list, renamed
    have hfilter : (ws.map f).filter (fun b => !(b == f w)) =
        (ws.filter fun b => !(b == w)).map f := by
      rw [List.filter_map]
      refine congrArg _ (List.filter_congr fun b hb => ?_)
      have : f b = f w ↔ b = w :=
        ⟨hinj (List.mem_cons_of_mem _ hb) List.mem_cons_self, congrArg f⟩
      simp [this]
    have hfwv : f w ≠ f v := fun heq => hwv (hinj List.mem_cons_self hv heq)
    have hmem : v ∈ ws.filter fun b => !(b == w) := by
      refine List.mem_filter.2 ⟨(List.mem_cons.1 hv).resolve_left (Ne.symm hwv), ?_⟩
      simpa using Ne.symm hwv
    have hsub : Set.InjOn f {b | b ∈ ws.filter fun b => !(b == w)} :=
      hinj.mono fun b hb => List.mem_cons_of_mem _ (List.mem_of_mem_filter hb)
    rw [hfilter, idxOf_eraseDups_map hsub v hmem]
    rw [beq_false_of_ne hfwv, beq_false_of_ne hwv]
termination_by l => l.length
decreasing_by exact Nat.lt_succ_of_le (List.length_filter_le _ _)

/-- Types that are numbered alike turn into each other when variables with the same number are
    exchanged. -/
theorem rename_of_numbered_eq {t u : Ty}
    (h : t.numbered t.order.idxOf = u.numbered u.order.idxOf) :
    t.substitute (fun v => some (var ((u.order[t.order.idxOf v]?).getD default))) = u := by
  have hsubst := congrArg (SimpleType.subst fun n => .var ((u.order[n]?).getD default).toNat) h
  rw [numbered, numbered, subst_interpret, subst_interpret] at hsubst
  refine eq_of_lift_eq _ _ ?_
  rw [lift, interpret_substitute]
  refine Eq.trans hsubst (interpret_congr u fun v hv => ?_)
  show SimpleType.var _ = _
  rw [getElem?_order hv, Option.getD_some]

/-- Renamings to and fro that undo each other are bijections. -/
theorem IsRenaming.of_turns {f g : TypeVar → TypeVar} {t u : Ty}
    (hf : t.substitute (fun v => some (var (f v))) = u)
    (hg : u.substitute (fun v => some (var (g v))) = t) : IsRenaming f t u := by
  have hoccurrences : u.occurrences = t.occurrences.map f := by rw [← hf, occurrences_rename]
  have hinverse : ∀ v ∈ t.occurrences, g (f v) = v := by
    intro v hv
    have hmap : t.occurrences.map (g ∘ f) = t.occurrences.map id := by
      rw [← List.map_map, ← hoccurrences, ← occurrences_rename, hg, List.map_id]
    exact List.map_eq_map_iff.1 hmap v hv
  refine ⟨⟨fun v hv => ?_, fun v hv w hw heq => ?_, fun w hw => ?_⟩, hf⟩
  · show f v ∈ u.occurrences
    rw [hoccurrences]
    exact List.mem_map_of_mem hv
  · rw [← hinverse v hv, heq, hinverse w hw]
  · have hw : w ∈ u.occurrences := hw
    rw [hoccurrences] at hw
    exact List.mem_map.1 hw

/-- **Written forms decide whether types are the same**: canonical forms up to the names of the
    variables, the plain ones with them. -/
theorem canonical_eq_iff {t u : Ty} (ht : t.IsWritable) (hu : u.IsWritable) :
    (t.canonical = u.canonical ↔ ∃ f, IsRenaming f t u) ∧ (t.text = u.text ↔ t = u) := by
  refine ⟨⟨fun h => ?_, ?_⟩, fun h => ?_, congrArg text⟩
  · rw [canonical_eq, canonical_eq] at h
    have hnumbered := numbered_eq_of_render isSpelling_canonicalName ht hu h
    exact ⟨_, .of_turns (rename_of_numbered_eq hnumbered) (rename_of_numbered_eq hnumbered.symm)⟩
  · rintro ⟨f, hbijective, rfl⟩
    rw [canonical_eq, canonical_eq, render_rename t]
    intro v hv
    rw [Function.comp_apply, Function.comp_apply, order, occurrences_rename,
      idxOf_eraseDups_map hbijective.injOn v hv]
  · exact eq_of_lift_eq t u (numbered_eq_of_render isSpelling_numbers ht hu h)

/-- A function that takes a function, with variables that appear twice. -/
def sampleFunction (v w : TypeVar) : Ty :=
  .function (.function (.var v) (.tuple [])) (.function (.var w) (.tuple [.var v, .data "List"]))

theorem sampleFunction_isWritable (v w : TypeVar) : (sampleFunction v w).IsWritable := by
  refine .function (.function .var (.tuple (by decide) nofun)) (.function .var
    (.tuple (by simp) fun t ht => ?_))
  rcases List.mem_cons.1 ht with rfl | ht
  · exact .var
  · rw [List.mem_singleton.1 ht]
    exact .data ⟨by decide, by decide, by decide⟩

/-- Renamed variables, their names `'t9` and `'t2` exchanged: the canonical forms are the same,
    the written forms are not; and with one variable in the place of two both differ. -/
theorem canonical_eq_iff_exchanged :
    (∃ f, IsRenaming f (sampleFunction (.ofNat 9) (.ofNat 2))
        (sampleFunction (.ofNat 2) (.ofNat 9))) ∧
      (¬ ∃ f, IsRenaming f (sampleFunction (.ofNat 9) (.ofNat 2))
        (sampleFunction (.ofNat 9) (.ofNat 9))) ∧
      (sampleFunction (.ofNat 9) (.ofNat 2)).text ≠
      (sampleFunction (.ofNat 2) (.ofNat 9)).text := by
  have hwritable := sampleFunction_isWritable
  refine ⟨(canonical_eq_iff (hwritable _ _) (hwritable _ _)).1.1 (by decide +kernel), fun h => ?_,
    fun h => ?_⟩
  · exact absurd ((canonical_eq_iff (hwritable _ _) (hwritable _ _)).1.2 h) (by decide +kernel)
  · exact absurd ((canonical_eq_iff (hwritable _ _) (hwritable _ _)).2.1 h) (by decide +kernel)

end Ty

end ClosureML
