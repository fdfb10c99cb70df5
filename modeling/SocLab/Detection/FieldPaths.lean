import SocLab.Detection.Semantics
import SocLab.Models.RuleDocument

/-!
# SocLab.Detection.FieldPaths — the two recognizers of field paths

`field_type` of `detection/semantics.py` and `_valid_path` of `models/detection.py` read a path on their own.

* `CharClasses` is what `str.isalpha` and `str.isalnum` are documented to be on ASCII text;
  `CharClasses.sourceDataName` is the loop of `field_type` over them.
* `fieldType_eq_ok`: what `field_type` resolves is `FieldPath`.
* `recognizers_agree`: what either recognizer accepts, against the other.
-/

namespace SocLab

open Py

/-! ### The loop over the characters of a name -/

/-- `str.isalpha` and `str.isalnum`: past ASCII they are whatever Unicode says. -/
structure CharClasses where
  isalpha : Char → Bool
  isalnum : Char → Bool
  isalpha_ascii : ∀ c, isAscii c = true → isalpha c = isAsciiLetter c
  isalnum_ascii : ∀ c, isAscii c = true → isalnum c = (isAsciiLetter c || isAsciiDigit c)

/-- `name and name.isascii() and name[0].isalpha() and all(char.isalnum() or char == "_" …)`. -/
def CharClasses.sourceDataName (classes : CharClasses) (name : String) : Bool :=
  match name.toList with
  | [] => false
  | c :: cs => (c :: cs).all isAscii && classes.isalpha c &&
    (c :: cs).all fun c => classes.isalnum c || c == '_'

theorem isAscii_of_isAsciiLetter {c : Char} (h : isAsciiLetter c = true) : isAscii c = true := by
  simp only [isAsciiLetter, Bool.or_eq_true, Bool.and_eq_true, decide_eq_true_eq, Char.le_def,
    UInt32.le_iff_toNat_le] at h
  rw [isAscii, decide_eq_true_eq]
  show c.val.toNat < 128
  rcases h with ⟨-, h⟩ | ⟨-, h⟩
  · exact lt_of_le_of_lt h (by decide)
  · exact lt_of_le_of_lt h (by decide)

theorem isAscii_of_isAsciiDigit {c : Char} (h : isAsciiDigit c = true) : isAscii c = true := by
  simp only [isAsciiDigit, Bool.and_eq_true, decide_eq_true_eq, Char.le_def, UInt32.le_iff_toNat_le] at h
  rw [isAscii, decide_eq_true_eq]
  exact lt_of_le_of_lt h.2 (by decide)

/-- Letters, digits and the underscore are ASCII, so `isascii()` decides what `isalnum` may say. -/
theorem isAscii_of_segmentChar {c : Char}
    (h : isAsciiLetter c = true ∨ isAsciiDigit c = true ∨ c = '_') : isAscii c = true := by
  rcases h with h | h | rfl
  · exact isAscii_of_isAsciiLetter h
  · exact isAscii_of_isAsciiDigit h
  · rfl

/-- The loop accepts the names of `SegmentForm`. -/
theorem CharClasses.sourceDataName_iff (classes : CharClasses) (name : String) :
    classes.sourceDataName name = true ↔ SegmentForm name.toList := by
  unfold CharClasses.sourceDataName
  cases hname : name.toList with
  | nil =>
    refine iff_of_false Bool.false_ne_true ?_
    rintro ⟨c, cs, hcons, -⟩
    cases hcons
  | cons c cs =>
    show ((c :: cs).all isAscii && classes.isalpha c &&
      (c :: cs).all fun c => classes.isalnum c || c == '_') = true ↔ SegmentForm (c :: cs)
    rw [Bool.and_eq_true, Bool.and_eq_true, List.all_eq_true, List.all_eq_true]
    constructor
    · rintro ⟨⟨hascii, halpha⟩, halnum⟩
      have hc : isAscii c = true := hascii c (by simp)
      refine ⟨c, cs, rfl, by rwa [← classes.isalpha_ascii c hc], fun x hx => ?_⟩
      have hxascii : isAscii x = true := hascii x (by simp [hx])
      have hxalnum := halnum x (by simp [hx])
      rw [classes.isalnum_ascii x hxascii] at hxalnum
      simpa [or_assoc] using hxalnum
    · rintro ⟨c', cs', hcons, hc, hcs⟩
      obtain ⟨rfl, rfl⟩ := List.cons.inj hcons
      have hletters : ∀ x ∈ c :: cs, isAsciiLetter x = true ∨ isAsciiDigit x = true ∨ x = '_' := by
        intro x hx
        rcases List.mem_cons.mp hx with rfl | hx
        · exact Or.inl hc
        · exact hcs x hx
      refine ⟨⟨fun x hx => isAscii_of_segmentChar (hletters x hx), ?_⟩, fun x hx => ?_⟩
      · rw [classes.isalpha_ascii c (isAscii_of_isAsciiLetter hc)]
        exact hc
      · rw [classes.isalnum_ascii x (isAscii_of_segmentChar (hletters x hx))]
        simpa [or_assoc] using hletters x hx

/-- The classes that are empty past ASCII. -/
def CharClasses.ascii : CharClasses where
  isalpha := isAsciiLetter
  isalnum c := isAsciiLetter c || isAsciiDigit c
  isalpha_ascii _ _ := rfl
  isalnum_ascii _ _ := rfl

theorem sourceDataName_iff (name : String) : sourceDataName name = true ↔ SegmentForm name.toList :=
  CharClasses.ascii.sourceDataName_iff name

/-! ### What `field_type` resolves -/

theorem mem_commonFields_of_lookup {field : String} {kind : FieldType}
    (h : commonFieldTypes.lookup field = some kind) : field ∈ commonFields := by
  obtain ⟨before, after, hsplit, -⟩ := List.lookup_eq_some_iff.mp h
  have hmem : (field, kind) ∈ commonFieldTypes := by rw [hsplit]; simp
  exact List.mem_map_of_mem (f := Prod.fst) hmem

theorem exists_lookup_of_mem_commonFields {field : String} (h : field ∈ commonFields) :
    ∃ kind, commonFieldTypes.lookup field = some kind := by
  have hall : ∀ f ∈ commonFields, (commonFieldTypes.lookup f).isSome = true := by decide
  exact Option.isSome_iff_exists.mp (hall field h)

/-- No common field has a dot. -/
theorem dot_not_mem_commonField {field : String} (h : field ∈ commonFields) : '.' ∉ field.toList := by
  have hall : ∀ f ∈ commonFields, '.' ∉ f.toList := by decide
  exact hall field h

/-- Every field of a context is a name that a path may end in. -/
theorem segmentForm_of_context {category : EventCategory} {name : String} {kind : FieldType}
    (h : (contextFieldTypes category).lookup name = some kind) : SegmentForm name.toList := by
  have hall : ∀ entry ∈ contextFieldTypes category, segment.fullmatch entry.1.toList = true := by
    cases category <;> decide
  obtain ⟨before, after, hsplit, -⟩ := List.lookup_eq_some_iff.mp h
  exact segment_iff.mp (hall (name, kind) (by rw [hsplit]; simp))

/-- A path of two parts is no common field. -/
theorem lookup_common_of_split {field first name : String} (h : split field '.' = [first, name]) :
    commonFieldTypes.lookup field = none := by
  cases hlookup : commonFieldTypes.lookup field with
  | none => rfl
  | some kind =>
    refine absurd ?_ (dot_not_mem_commonField (mem_commonFields_of_lookup hlookup))
    rw [toList_of_split h]
    simp

theorem fieldType_of_fieldPath {field : String} {category : EventCategory} {kind : FieldType}
    (h : FieldPath category field kind) : fieldType field category = .ok kind := by
  cases h with
  | common hlookup => rw [fieldType, hlookup]
  | context hsplit hname =>
    rw [fieldType, lookup_common_of_split hsplit]
    simp only [hsplit, if_true, hname]
  | sourceData hsplit hname =>
    rw [fieldType, lookup_common_of_split hsplit]
    simp [hsplit, hname]

theorem fieldType_eq_ok {field : String} {category : EventCategory} {kind : FieldType} :
    fieldType field category = .ok kind ↔ FieldPath category field kind :=
  ⟨fieldPath_of_fieldType, fieldType_of_fieldPath⟩

/-! ### The two recognizers -/

theorem validPath_of_fieldPath {field : String} {category : EventCategory} {kind : FieldType}
    (h : FieldPath category field kind) : validPath field = true := by
  rw [validPath_iff]
  cases h with
  | common hlookup => exact .common (mem_commonFields_of_lookup hlookup)
  | context hsplit hname =>
    exact .nested (Or.inl rfl) (toList_of_split hsplit) (segmentForm_of_context hname)
  | @sourceData name hsplit hname =>
    exact .nested (Or.inr rfl) (toList_of_split hsplit) ((sourceDataName_iff name).mp hname)

/-- A valid path either asks for the context or resolves whatever the category is. -/
theorem fieldPath_of_validPath {field : String} (h : validPath field = true) :
    startsWith field "context." = true ∨ ∀ category, ∃ kind, FieldPath category field kind := by
  cases validPath_iff.mp h with
  | common hmem =>
    obtain ⟨kind, hlookup⟩ := exists_lookup_of_mem_commonFields hmem
    exact Or.inr fun _ => ⟨kind, .common hlookup⟩
  | @nested root name hroot hpath hname =>
    rcases hroot with rfl | rfl
    · left
      rw [startsWith, List.isPrefixOf_iff_prefix, hpath]
      exact ⟨name.toList, by simp⟩
    · right
      intro category
      exact ⟨.string, .sourceData (split_nested (Or.inr rfl) hpath hname)
        ((sourceDataName_iff name).mpr hname)⟩

/-- On a path of `source_data` both recognizers ask for a segment. -/
theorem fieldType_source_data (name : String) (category : EventCategory) :
    (∃ kind, fieldType ("source_data." ++ name) category = .ok kind) ↔
      validPath ("source_data." ++ name) = true := by
  constructor
  · rintro ⟨kind, hkind⟩
    exact validPath_of_fieldPath (fieldPath_of_fieldType hkind)
  · intro hvalid
    rcases fieldPath_of_validPath hvalid with hcontext | hall
    · rw [startsWith, List.isPrefixOf_iff_prefix, String.toList_append] at hcontext
      obtain ⟨rest, hrest⟩ := hcontext
      cases hrest
    · obtain ⟨kind, hpath⟩ := hall category
      exact ⟨kind, fieldType_of_fieldPath hpath⟩

/-- **The two recognizers agree**, and their two readers of a `source_data` name accept the same names. -/
theorem recognizers_agree (path : String) :
    (∀ category kind, fieldType path category = .ok kind → validPath path = true) ∧
      (validPath path = true →
        startsWith path "context." = true ∨ ∀ category, ∃ kind, fieldType path category = .ok kind) ∧
      ∀ (classes : CharClasses) (name : String),
        classes.sourceDataName name = segment.fullmatch name.toList ∧
          sourceDataName name = classes.sourceDataName name ∧
          ∀ category, (∃ kind, fieldType ("source_data." ++ name) category = .ok kind) ↔
            validPath ("source_data." ++ name) = true := by
  refine ⟨fun category kind h => validPath_of_fieldPath (fieldPath_of_fieldType h), fun h => ?_,
    fun classes name => ⟨?_, ?_, fieldType_source_data name⟩⟩
  · simpa only [fieldType_eq_ok] using fieldPath_of_validPath h
  · rw [Bool.eq_iff_iff, classes.sourceDataName_iff, segment_iff]
  · rw [Bool.eq_iff_iff, classes.sourceDataName_iff, sourceDataName_iff]

end SocLab
