import HangulScript.Proofs.Tree.Objects

/-!
# Which JSON values are trees

An object can be wrong in several ways at once, at several depths, and one error is reported.
It is the first one met by going through the range, the type and the fields in the order of the
table, down into each field before the next is looked at.

There are three parts to this.  What is a tree is read (`Accepted.exists_ofJson_eq_ok`); what is
wrong first is reported (`FirstDefect.ofJson_eq_error`); and a plain value either is a tree or has
a first defect (`IsPlain.accepted_or_exists_defect`).  The third says nothing about the reader.
With it the first two become equivalences, for a value is not both read and refused.

Each part follows the definition of what it is about, through nodes and fields in turn.  Fields
and lists are both read one after the other up to the first failure, so that there is one lemma
for the two of them (`mapM_eq_error`).
-/

namespace HangulScript

/-! ## Lists that are read one by one -/

section

variable {ε α β : Type} {f g : α → Except ε β}

theorem exists_mapM_eq_ok {xs : List α} (h : ∀ x ∈ xs, ∃ y, f x = .ok y) :
    ∃ ys, xs.mapM f = .ok ys := by
  induction xs with
  | nil => exact ⟨[], rfl⟩
  | cons x xs ih =>
    obtain ⟨⟨y, hy⟩, hxs⟩ := List.forall_mem_cons.mp h
    obtain ⟨ys, hys⟩ := ih hxs
    refine ⟨y :: ys, ?_⟩
    rw [List.mapM_cons, hy, hys]
    rfl

/-- The first failure is that of the whole. -/
theorem mapM_eq_error {before after : List α} {x : α} {e : ε}
    (h : ∀ y ∈ before, ∃ z, f y = .ok z) (hx : f x = .error e) :
    (before ++ x :: after).mapM f = .error e := by
  induction before with
  | nil =>
    rw [List.nil_append, List.mapM_cons, hx]
    rfl
  | cons y before ih =>
    obtain ⟨⟨z, hz⟩, hbefore⟩ := List.forall_mem_cons.mp h
    rw [List.cons_append, List.mapM_cons, hz, ih hbefore]
    rfl

theorem mapM_congr {xs : List α} (h : ∀ x ∈ xs, f x = g x) : xs.mapM f = xs.mapM g := by
  induction xs with
  | nil => rfl
  | cons x xs ih =>
    obtain ⟨hx, hxs⟩ := List.forall_mem_cons.mp h
    rw [List.mapM_cons, List.mapM_cons, hx, ih hxs]

/-- Either all elements of a list are of one kind, or there is a first one of another. -/
theorem forall_mem_or_exists_first {P Q : α → Prop} {xs : List α} (h : ∀ x ∈ xs, P x ∨ Q x) :
    (∀ x ∈ xs, P x) ∨
      ∃ before x after, xs = before ++ x :: after ∧ (∀ y ∈ before, P y) ∧ Q x := by
  induction xs with
  | nil => exact Or.inl (by simp)
  | cons x xs ih =>
    obtain ⟨hx, hxs⟩ := List.forall_mem_cons.mp h
    rcases hx with hx | hx
    · rcases ih hxs with hall | ⟨before, y, after, rfl, hbefore, hy⟩
      · exact Or.inl (List.forall_mem_cons.mpr ⟨hx, hall⟩)
      · exact Or.inr ⟨x :: before, y, after, rfl, List.forall_mem_cons.mpr ⟨hx, hbefore⟩, hy⟩
    · exact Or.inr ⟨[], x, xs, rfl, by simp, hx⟩

end

namespace Node

theorem ofJsonAll_eq_mapM (elements : List Json) : ofJsonAll elements = elements.mapM ofJson := by
  induction elements with
  | nil =>
    rw [ofJsonAll]
    rfl
  | cons value rest ih => rw [ofJsonAll, List.mapM_cons, ih]

/-! ## Ranges and numbers -/

theorem exists_rangeOf_eq_ok {place : Json} (h : IsRange place) :
    ∃ range, rangeOf place = .ok range := by
  obtain ⟨a, b, c, d, rfl⟩ := h
  exact ⟨⟨⟨a, b⟩, ⟨c, d⟩⟩, rfl⟩

theorem pairOf_eq_error {value : Json} {e : EncodingError} (h : PairDefect value e) :
    pairOf value = .error e := by
  unfold pairOf
  cases h with
  | noItems hi => rw [hi]
  | @count items hi hlength =>
    rw [hi]
    split
    next hpair =>
      cases hpair
      exact absurd rfl hlength
    next => rfl
    next hnone => cases hnone

theorem rangeOf_eq_error {place : Json} {e : EncodingError} (h : RangeDefect place e) :
    rangeOf place = .error e := by
  unfold rangeOf
  cases h with
  | whole h =>
    rw [pairOf_eq_error h]
    rfl
  | @first a b _ hi h =>
    have hplace : pairOf place = .ok (a, b) := by rw [pairOf, hi]
    simp only [hplace, bind, Except.bind, pairOf_eq_error h]
  | @last a b row column _ hi ha h =>
    have hplace : pairOf place = .ok (a, b) := by rw [pairOf, hi]
    have hfirst : pairOf a = .ok (row, column) := by rw [pairOf, ha]
    simp only [hplace, hfirst, bind, Except.bind, pairOf_eq_error h]

theorem exists_numberOf_eq_ok {value : Json} (h : IsNumber value) :
    ∃ x, numberOf value = .ok x := by
  fun_cases numberOf value with
  | case1 _ x | case3 x | case5 _ x => exact ⟨x, rfl⟩
  | case2 n hn =>
    cases h with
    | integer h =>
      rw [hn] at h
      cases h
  | case4 b => exact ⟨if b then .one else .zero, rfl⟩
  | case6 text htext =>
    cases h with
    | numeral h =>
      rw [htext] at h
      cases h
  | case7 | case8 | case9 => cases h

theorem numberOf_eq_error {value : Json} {e : EncodingError} (h : NumberDefect value e) :
    numberOf value = .error e := by
  fun_cases numberOf value with
  | case1 n x hn =>
    cases h with
    | tooLarge h =>
      rw [hn] at h
      cases h
  | case3 | case4 => cases h
  | case5 text x htext =>
    cases h with
    | noNumeral h =>
      rw [htext] at h
      cases h
  | case2 | case6 | case7 | case8 | case9 =>
    cases h
    rfl

theorem nodesOf_eq_error {value : Json} (h : value.items? = none) :
    nodesOf value = .error .noItems := by
  cases value with
  | array | string | object => cases h
  | _ => rw [nodesOf] <;> simp

/-! ## Objects -/

section

variable {members : List (String × Json)} {place : Json} {range : Range}

theorem ofJson_of_range_missing (h : members.lookup "range" = none) :
    ofJson (.object members) = .error (.missingField "range") := by
  rw [ofJson, ofMembers, Members.get, lookup_membersOf, h]
  rfl

theorem ofJson_of_range_error {e : EncodingError} (hplace : members.lookup "range" = some place)
    (h : rangeOf place = .error e) : ofJson (.object members) = .error e := by
  rw [ofJson, ofMembers, get_membersOf hplace]
  show (rangeOf place >>= _) = _
  rw [h]
  rfl

/-- An object with a range is read by its type. -/
theorem ofJson_of_range (hplace : members.lookup "range" = some place)
    (h : rangeOf place = .ok range) :
    ofJson (.object members) = match members.lookup "type" with
      | some (.string kind) =>
        (ofKind? range (membersOf members) kind).getD (.error (.unknownKind kind))
      | other => .error (.unknownKind (other.getD .null).shown) := by
  rw [ofJson, ofMembers, get_membersOf hplace, lookup_membersOf]
  show (rangeOf place >>= _) = _
  rw [h]
  cases members.lookup "type" with
  | none => rfl
  | some kind =>
    cases kind with
    | string kind =>
      simp only [Option.map_some, memberOf, bind, Except.bind]
      cases ofKind? range (membersOf members) kind <;> rfl
    | _ => rfl

/-- An object of a type is read by the fields of that type. -/
theorem ofJson_of_ofType {kind : String} {fields : List (String × FieldSort)}
    (hplace : members.lookup "range" = some place) (h : rangeOf place = .ok range)
    (hkind : OfType members kind fields) :
    ofJson (.object members) =
      (fields.mapM fun f => readField f (members.lookup f.1)).map (assemble range kind) := by
  have hread : fields.mapM (Members.read (membersOf members)) =
      fields.mapM fun f => readField f (members.lookup f.1) :=
    mapM_congr fun f _ => read_membersOf members f
  rw [ofJson_of_range hplace h, hkind.1]
  show (ofKind? range (membersOf members) kind).getD _ = _
  rw [ofKind?_eq, hkind.2, Option.map_some, hread]
  rfl

theorem ofJson_of_unknown (hplace : members.lookup "range" = some place)
    (h : rangeOf place = .ok range) (hkind : ∀ kind fields, ¬ OfType members kind fields) :
    ofJson (.object members) =
      .error (.unknownKind ((members.lookup "type").getD .null).shown) := by
  rw [ofJson_of_range hplace h]
  cases htype : members.lookup "type" with
  | none => rfl
  | some other =>
    cases other with
    | string kind =>
      have hnone : fieldsOf? kind = none := by
        cases hfields : fieldsOf? kind with
        | none => rfl
        | some fields => exact absurd ⟨htype, hfields⟩ (hkind kind fields)
      show (ofKind? range (membersOf members) kind).getD _ = _
      rw [ofKind?_eq, hnone]
      rfl
    | _ => rfl

end

/-! ## What is accepted -/

mutual

/-- What is a tree is read. -/
theorem Accepted.exists_ofJson_eq_ok {value : Json} : Accepted value → ∃ n, ofJson value = .ok n
  | .null => ⟨.absent, by rw [ofJson]⟩
  | @Accepted.object members _ _ _ hplace hrange hkind hfields => by
    obtain ⟨range, hr⟩ := exists_rangeOf_eq_ok hrange
    have hread : ∀ f ∈ _, ∃ v, readField f (members.lookup f.1) = .ok v := fun f hf =>
      (hfields f hf).exists_readField_eq_ok f.1
    obtain ⟨values, hvalues⟩ := exists_mapM_eq_ok hread
    rw [ofJson_of_ofType hplace hr hkind, hvalues]
    exact ⟨_, rfl⟩

/-- What a field should hold is read. -/
theorem Holds.exists_readField_eq_ok {sort : FieldSort} {field : Option Json} (name : String) :
    Holds sort field → ∃ value, readField (name, sort) field = .ok value
  | .node h | .nodeIfAny h => by
    obtain ⟨n, hn⟩ := h.exists_ofJson_eq_ok
    refine ⟨.node n, ?_⟩
    rw [readField, hn]
    rfl
  | .missing => ⟨.node .absent, rfl⟩
  | .nodes h => by
    obtain ⟨ns, hns⟩ := exists_mapM_eq_ok fun value hv => (h value hv).exists_ofJson_eq_ok
    refine ⟨.nodes ns, ?_⟩
    rw [readField, nodesOf, ofJsonAll_eq_mapM, hns]
    rfl
  | .text text => ⟨.text text, rfl⟩
  | .number h => by
    obtain ⟨x, hx⟩ := exists_numberOf_eq_ok h
    refine ⟨.number x, ?_⟩
    rw [readField, hx]
    rfl
  | .truth value => ⟨.truth value.truth, rfl⟩

end

/-! ## What is refused -/

mutual

/-- What is wrong first is reported. -/
theorem FirstDefect.ofJson_eq_error {value : Json} {e : EncodingError} :
    FirstDefect value e → ofJson value = .error e
  | .notAnObject hnull hobject => by
    cases value with
    | null => exact absurd rfl hnull
    | object members => exact absurd rfl (hobject members)
    | _ => rw [ofJson] <;> simp
  | .noRange h => ofJson_of_range_missing h
  | .range hplace h => ofJson_of_range_error hplace (rangeOf_eq_error h)
  | .kind hplace hrange hkind => by
    obtain ⟨range, hr⟩ := exists_rangeOf_eq_ok hrange
    exact ofJson_of_unknown hplace hr hkind
  | .field hplace hrange hkind hbefore hfield => by
    obtain ⟨range, hr⟩ := exists_rangeOf_eq_ok hrange
    rw [ofJson_of_ofType hplace hr hkind,
      mapM_eq_error (fun f hf => (hbefore f hf).exists_readField_eq_ok f.1)
        hfield.readField_eq_error]
    rfl

/-- What is wrong first with a field is reported. -/
theorem FieldDefect.readField_eq_error {name : String} {sort : FieldSort} {field : Option Json}
    {e : EncodingError} : FieldDefect name sort field e → readField (name, sort) field = .error e
  | .missing h => by
    cases sort with
    | nodeIfAny => exact absurd rfl h
    | _ => rfl
  | .node h | .nodeIfAny h => by
    rw [readField, h.ofJson_eq_error]
    rfl
  | .noItems h => by
    rw [readField, nodesOf_eq_error h]
    rfl
  | .element hbefore h => by
    rw [readField, nodesOf, ofJsonAll_eq_mapM,
      mapM_eq_error (fun value hv => (hbefore value hv).exists_ofJson_eq_ok) h.ofJson_eq_error]
    rfl
  | .number h => by
    rw [readField, numberOf_eq_error h]
    rfl

end

/-! ## Nothing else happens -/

/-- A value whose items are no strings is an array. -/
theorem eq_array_of_items? {value item : Json} {rest : List Json}
    (h : value.items? = some (item :: rest)) (hitem : ∀ text, item ≠ .string text) :
    value = .array (item :: rest) := by
  cases value with
  | array elements =>
    cases h
    rfl
  | string | object =>
    obtain ⟨_, _, -, hs, -⟩ := List.map_eq_cons_iff.mp (Option.some.inj h)
    exact absurd hs.symm (hitem _)
  | _ => cases h

/-- A place is a range or has a defect. -/
theorem isRange_or_exists_defect {place : Json} (h : HasIntegers place) :
    IsRange place ∨ ∃ e, RangeDefect place e := by
  have hpair : ∀ value : Json, (∃ a b, value.items? = some [a, b]) ∨ ∃ e, PairDefect value e := by
    intro value
    cases hi : value.items? with
    | none => exact Or.inr ⟨_, .noItems hi⟩
    | some items =>
      match items, hi with
      | [a, b], hi => exact Or.inl ⟨a, b, rfl⟩
      | [], hi | [_], hi | _ :: _ :: _ :: _, hi => exact Or.inr ⟨_, .count hi (by simp)⟩
  rcases hpair place with ⟨first, last, hplace⟩ | ⟨e, he⟩
  · rcases hpair first with ⟨a, b, hfirst⟩ | ⟨e, he⟩
    · rcases hpair last with ⟨c, d, hlast⟩ | ⟨e, he⟩
      · -- the entries are integers, so nothing here is a string or an object
        have hentry := h first last a b c d hplace hfirst hlast
        obtain ⟨a, rfl⟩ := hentry a (by simp)
        obtain ⟨b, rfl⟩ := hentry b (by simp)
        obtain ⟨c, rfl⟩ := hentry c (by simp)
        obtain ⟨d, rfl⟩ := hentry d (by simp)
        obtain rfl := eq_array_of_items? hfirst fun text ht => by cases ht
        obtain rfl := eq_array_of_items? hlast fun text ht => by cases ht
        exact Or.inl ⟨a, b, c, d, eq_array_of_items? hplace fun text ht => by cases ht⟩
      · exact Or.inr ⟨e, .last hplace hfirst he⟩
    · exact Or.inr ⟨e, .first hplace he⟩
  · exact Or.inr ⟨e, .whole he⟩

theorem isNumber_or_exists_defect (value : Json) :
    IsNumber value ∨ ∃ e, NumberDefect value e := by
  cases value with
  | null => exact Or.inr ⟨_, .null⟩
  | array elements => exact Or.inr ⟨_, .array elements⟩
  | object members => exact Or.inr ⟨_, .object members⟩
  | boolean b => exact Or.inl (.boolean b)
  | number x => exact Or.inl (.number x)
  | integer n =>
    cases h : Double.ofInt? n with
    | none => exact Or.inr ⟨_, .tooLarge h⟩
    | some x => exact Or.inl (.integer (by rw [h]; rfl))
  | string text =>
    cases h : Numeral.value? text.toList with
    | none => exact Or.inr ⟨_, .noNumeral h⟩
    | some x => exact Or.inl (.numeral (by rw [h]; rfl))

mutual

/-- A plain value is a tree, or something is wrong with it first. -/
theorem IsPlain.accepted_or_exists_defect {value : Json} :
    IsPlain value → Accepted value ∨ ∃ e, FirstDefect value e
  | .other hobject => by
    by_cases hnull : value = .null
    · subst hnull
      exact Or.inl .null
    · exact Or.inr ⟨_, .notAnObject hnull hobject⟩
  | @IsPlain.object members hrange hfields => by
    cases hplace : members.lookup "range" with
    | none => exact Or.inr ⟨_, .noRange hplace⟩
    | some place =>
      rcases isRange_or_exists_defect (hrange place hplace) with hr | ⟨e, he⟩
      · by_cases hkind : ∃ kind fields, OfType members kind fields
        · obtain ⟨kind, fields, hkind⟩ := hkind
          have hall : ∀ f ∈ fields, Holds f.2 (members.lookup f.1) ∨
              ∃ e, FieldDefect f.1 f.2 (members.lookup f.1) e := by
            intro f hf
            cases hv : members.lookup f.1 with
            | some v => exact (hfields kind fields hkind f hf v hv).holds_or_exists_defect f.1
            | none =>
              by_cases hs : f.2 = .nodeIfAny
              · rw [hs]
                exact Or.inl .missing
              · exact Or.inr ⟨_, .missing hs⟩
          rcases forall_mem_or_exists_first hall with
            hholds | ⟨before, ⟨name, sort⟩, after, rfl, hbefore, e, he⟩
          · exact Or.inl (.object hplace hr hkind hholds)
          · exact Or.inr ⟨e, .field hplace hr hkind hbefore he⟩
        · exact Or.inr ⟨_, .kind hplace hr fun kind fields h => hkind ⟨kind, fields, h⟩⟩
      · exact Or.inr ⟨e, .range hplace he⟩

/-- A plain field holds what it should, or something is wrong with it first. -/
theorem IsPlainField.holds_or_exists_defect {sort : FieldSort} {value : Json} (name : String) :
    IsPlainField sort value → Holds sort (some value) ∨ ∃ e, FieldDefect name sort (some value) e
  | .node h => h.accepted_or_exists_defect.imp .node fun ⟨e, he⟩ => ⟨e, .node he⟩
  | .nodeIfAny h => h.accepted_or_exists_defect.imp .nodeIfAny fun ⟨e, he⟩ => ⟨e, .nodeIfAny he⟩
  | .nodes h => by
    rcases forall_mem_or_exists_first fun v hv => (h v hv).accepted_or_exists_defect with
      hall | ⟨before, v, after, rfl, hbefore, e, he⟩
    · exact Or.inl (.nodes hall)
    · exact Or.inr ⟨e, .element hbefore he⟩
  | .noItems h => Or.inr ⟨_, .noItems h⟩
  | .text text => Or.inl (.text text)
  | .number value => (isNumber_or_exists_defect value).imp .number fun ⟨e, he⟩ => ⟨e, .number he⟩
  | .truth value => Or.inl (.truth value)

end

/-! ## What makes no difference -/

mutual

/-- Values that agree are read alike. -/
theorem Agrees.ofJson_eq {value value' : Json} : Agrees value value' → ofJson value = ofJson value'
  | .same _ => rfl
  | @Agrees.object members members' hrange htype hfields => by
    have htypes : ∀ kind fields, OfType members kind fields ↔ OfType members' kind fields := by
      intro kind fields
      rw [OfType, OfType, htype]
    cases hplace : members.lookup "range" with
    | none => rw [ofJson_of_range_missing hplace, ofJson_of_range_missing (hrange ▸ hplace)]
    | some place =>
      have hplace' : members'.lookup "range" = some place := hrange ▸ hplace
      cases hr : rangeOf place with
      | error e => rw [ofJson_of_range_error hplace hr, ofJson_of_range_error hplace' hr]
      | ok range =>
        by_cases hkind : ∃ kind fields, OfType members kind fields
        · obtain ⟨kind, fields, hkind⟩ := hkind
          have hread : fields.mapM (fun f => readField f (members.lookup f.1)) =
              fields.mapM fun f => readField f (members'.lookup f.1) :=
            mapM_congr fun f hf => (hfields kind fields hkind f hf).readField_eq f.1
          rw [ofJson_of_ofType hplace hr hkind,
            ofJson_of_ofType hplace' hr ((htypes kind fields).mp hkind), hread]
        · rw [ofJson_of_unknown hplace hr fun kind fields h => hkind ⟨kind, fields, h⟩,
            ofJson_of_unknown hplace' hr fun kind fields h =>
              hkind ⟨kind, fields, (htypes kind fields).mpr h⟩, htype]

/-- Fields that agree are read alike. -/
theorem FieldAgrees.readField_eq {sort : FieldSort} {field field' : Option Json} (name : String) :
    FieldAgrees sort field field' → readField (name, sort) field = readField (name, sort) field'
  | .same _ _ => rfl
  | .node h | .nodeIfAny h => by rw [readField, readField, h.ofJson_eq]
  | .nodes h => by rw [readField, readField, nodesOf, nodesOf, h.ofJsonAll_eq]

/-- Lists that agree are read alike. -/
theorem AllAgree.ofJsonAll_eq {elements elements' : List Json} :
    AllAgree elements elements' → ofJsonAll elements = ofJsonAll elements'
  | .nil => rfl
  | .cons h hrest => by rw [ofJsonAll, ofJsonAll, h.ofJson_eq, hrest.ofJsonAll_eq]

end

/-- **A tree is what the table says, and the first defect is reported.**  Take a JSON value whose
rows and columns are integers, whose lists are arrays or have no items, and whose texts are
strings.  It is read as a tree exactly if it is `null`, or an object with a range, a type and all
fields of the type; and an error, with its class and its message, is reported exactly if that is
what is wrong with it first.  Members that belong to no field of the type can be added, removed
and changed, in all its nodes, and it is read as before. -/
theorem reading_reports_first_defect (value : Json) (h : IsPlain value) :
    ((∃ n, ofJson value = .ok n) ↔ Accepted value) ∧
    (∀ e, ofJson value = .error e ↔ FirstDefect value e) ∧
    ∀ value', Agrees value value' → ofJson value' = ofJson value := by
  refine ⟨⟨fun ⟨n, hn⟩ => ?_, Accepted.exists_ofJson_eq_ok⟩,
    fun e => ⟨fun he => ?_, FirstDefect.ofJson_eq_error⟩, fun value' ha => ha.ofJson_eq.symm⟩
  · rcases h.accepted_or_exists_defect with hall | ⟨e, he⟩
    · exact hall
    · rw [he.ofJson_eq_error] at hn
      cases hn
  · rcases h.accepted_or_exists_defect with hall | ⟨e', he'⟩
    · obtain ⟨n, hn⟩ := hall.exists_ofJson_eq_ok
      rw [hn] at he
      cases he
    · rw [he'.ofJson_eq_error] at he
      cases he
      exact he'

/-- The operand of a comparison lacks its operator, and its own operand is no object; the
comparison lacks its right operand.  The operator is missed first, with a note in the objects or
without. -/
theorem reading_reports_first_defect_operator :
    let place := (Range.point Position.origin).toJson
    let sign (note : List (String × Json)) := Json.object
      (note ++ [("type", .string "Prefix"), ("range", place), ("operand", .boolean true)])
    let comparison (note : List (String × Json)) := Json.object
      (note ++ [("range", place), ("type", .string "Infix"), ("op", .string "<"),
        ("left", sign note)])
    let value := comparison []
    let noted := comparison [("note", .boolean true)]
    IsPlain value ∧ FirstDefect value (.missingField "op") ∧ ¬ Accepted value ∧
      ofJson value = .error (.missingField "op") ∧ Agrees value noted ∧
      ofJson noted = .error (.missingField "op") ∧
      EncodingError.className (.missingField "op") = "KeyError" ∧
      EncodingError.message? (.missingField "op") = some "op" := by
  intro place sign comparison value noted
  have hplace : HasIntegers place := by
    rintro first last a b c d hp hf hl entry he
    cases hp
    cases hf
    cases hl
    simp only [List.mem_cons, List.not_mem_nil, or_false] at he
    rcases he with rfl | rfl | rfl | rfl <;> exact ⟨_, rfl⟩
  have hsign : OfType [("type", .string "Prefix"), ("range", place), ("operand", .boolean true)]
      "Prefix" [("op", .text), ("operand", .node)] := ⟨rfl, rfl⟩
  have hcomparison : OfType
      [("range", place), ("type", .string "Infix"), ("op", .string "<"), ("left", sign [])]
      "Infix" [("op", .text), ("left", .node), ("right", .node)] := ⟨rfl, rfl⟩
  have hplainSign : IsPlain (sign []) := by
    refine .object (fun p hp => ?_) fun kind fields h f hf v hv => ?_
    · cases hp
      exact hplace
    · obtain ⟨rfl, rfl⟩ := h.unique hsign
      simp only [List.mem_cons, List.not_mem_nil, or_false] at hf
      rcases hf with rfl | rfl <;> cases hv
      exact .node (.other fun _ h => by cases h)
  have hplain : IsPlain value := by
    refine .object (fun p hp => ?_) fun kind fields h f hf v hv => ?_
    · cases hp
      exact hplace
    · obtain ⟨rfl, rfl⟩ := h.unique hcomparison
      simp only [List.mem_cons, List.not_mem_nil, or_false] at hf
      rcases hf with rfl | rfl | rfl <;> cases hv
      · exact .text "<"
      · exact .node hplainSign
  have hagreeSign : Agrees (sign []) (sign [("note", .boolean true)]) := by
    refine .object rfl rfl fun kind fields h f hf => ?_
    obtain ⟨rfl, rfl⟩ := h.unique hsign
    simp only [List.mem_cons, List.not_mem_nil, or_false] at hf
    rcases hf with rfl | rfl <;> exact .same _ _
  have hagree : Agrees value noted := by
    refine .object rfl rfl fun kind fields h f hf => ?_
    obtain ⟨rfl, rfl⟩ := h.unique hcomparison
    simp only [List.mem_cons, List.not_mem_nil, or_false] at hf
    rcases hf with rfl | rfl | rfl
    · exact .same _ _
    · exact .node hagreeSign
    · exact .same _ _
  obtain ⟨haccepted, hdefect, hsame⟩ := reading_reports_first_defect value hplain
  have hread : ofJson value = .error (.missingField "op") := rfl
  refine ⟨hplain, (hdefect _).mp hread, fun h => ?_, hread, hagree,
    (hsame noted hagree).trans hread, rfl, rfl⟩
  obtain ⟨n, hn⟩ := haccepted.mpr h
  rw [hread] at hn
  cases hn

end Node
end HangulScript
