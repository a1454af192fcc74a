import HangulScript.Json.Printer
import HangulScript.Proofs.Json.Numbers

/-!
# What is written is read back

Every JSON value that gives no two members of an object one name is read back from its text
(`Json.ofText?_toText`): strings of any characters, numbers of any size, and whatever stands in
arrays and objects.

The reader carries a bound on the nesting of its calls.  A call for a value needs twice the length
of what is written for it, and one for the elements of an array or the members of an object one
more; an array, which is longer than its elements by its brackets, therefore leaves enough for
them.  So the bound that the reader begins with is never reached.
-/

namespace HangulScript
namespace Json

/-! ## Strings -/

theorem hexValue?_hexDigit {n : Nat} (h : n < 16) : hexValue? (Text.hexDigit n) = some n := by
  have hall : ∀ n < 16, hexValue? (Text.hexDigit n) = some n := by decide
  exact hall n h

theorem fourHex?_hexDigits {n : Nat} (h : n < 65536) (rest : List Char) :
    fourHex? (Text.hexDigits 4 n ++ rest) = some (n, rest) := by
  have hvalue : ∀ k, hexValue? (Text.hexDigit (k % 16)) = some (k % 16) := fun k =>
    hexValue?_hexDigit (Nat.mod_lt k (by decide))
  have hsum : 16 * (16 * (16 * (n / 16 / 16 / 16 % 16) + n / 16 / 16 % 16) + n / 16 % 16) + n % 16
      = n := by omega
  simp [Text.hexDigits, fourHex?, hvalue, hsum]

/-- A character in front of what a string has been read as. -/
def consRead (c : Char) (r : List Char × List Char) : List Char × List Char := (c :: r.1, r.2)

theorem stringTail?_escape {c : Char} {escaped rest : List Char}
    (h : escape? escaped = some (c, rest)) (bound : Nat) :
    stringTail? (bound + 1) ('\\' :: escaped) = (stringTail? bound rest).map (consRead c) := by
  cases hrest : stringTail? bound rest <;> simp [stringTail?, h, hrest, consRead]

theorem stringTail?_plain {c : Char} (hquote : c ≠ '"') (hslash : c ≠ '\\')
    (hcontrol : ¬ c.toNat < 0x20) (bound : Nat) (rest : List Char) :
    stringTail? (bound + 1) (c :: rest) = (stringTail? bound rest).map (consRead c) := by
  rw [stringTail?, if_neg hquote, if_neg hslash, if_neg hcontrol]
  cases stringTail? bound rest <;> rfl

/-- A character is written as an escape that stands for it, or as itself where it may. -/
theorem escapedChar_cases (c : Char) :
    (∃ escaped, escapedChar c = '\\' :: escaped ∧
      ∀ rest, escape? (escaped ++ rest) = some (c, rest)) ∨
    escapedChar c = [c] ∧ c ≠ '"' ∧ c ≠ '\\' ∧ ¬ c.toNat < 0x20 := by
  by_cases hnamed : c ∈ ['"', '\\', '\n', '\r', '\t', '\x08', '\x0c']
  · left
    simp only [List.mem_cons, List.not_mem_nil, or_false] at hnamed
    rcases hnamed with rfl | rfl | rfl | rfl | rfl | rfl | rfl <;> exact ⟨_, rfl, fun _ => rfl⟩
  · simp only [List.mem_cons, List.not_mem_nil, or_false, not_or] at hnamed
    have hshape : escapedChar c =
        if c.toNat < 0x20 then '\\' :: 'u' :: Text.hexDigits 4 c.toNat else [c] := by
      simp only [escapedChar, hnamed, if_false]
    by_cases hcontrol : c.toNat < 0x20
    · rw [if_pos hcontrol] at hshape
      refine Or.inl ⟨_, hshape, fun rest => ?_⟩
      have hunit : unitChar c.toNat rest = (c, rest) := by
        unfold unitChar
        rw [if_neg (by omega), if_neg (by omega), Char.ofNat_toNat]
      show (fourHex? (Text.hexDigits 4 c.toNat ++ rest)).map _ = _
      rw [fourHex?_hexDigits (by omega), Option.map_some]
      exact congrArg some hunit
    · rw [if_neg hcontrol] at hshape
      exact Or.inr ⟨hshape, hnamed.1, hnamed.2.1, hcontrol⟩

/-- **One character is read back** from what is written for it inside a string. -/
theorem stringTail?_escapedChar (c : Char) (bound : Nat) (rest : List Char) :
    stringTail? (bound + 1) (escapedChar c ++ rest) =
      (stringTail? bound rest).map (consRead c) := by
  rcases escapedChar_cases c with ⟨escaped, hescaped, hread⟩ | ⟨hitself, hquote, hslash, hcontrol⟩
  · rw [hescaped, List.cons_append]
    exact stringTail?_escape (hread rest) bound
  · rw [hitself]
    exact stringTail?_plain hquote hslash hcontrol bound rest

/-- The characters of a string are read back up to its closing quote. -/
theorem stringTail?_escaped (text rest : List Char) {bound : Nat} (h : text.length < bound) :
    stringTail? bound (text.flatMap escapedChar ++ '"' :: rest) = some (text, rest) := by
  induction text generalizing bound with
  | nil =>
    obtain ⟨bound, rfl⟩ := Nat.exists_eq_succ_of_ne_zero (by omega : bound ≠ 0)
    rfl
  | cons c text ih =>
    obtain ⟨bound, rfl⟩ := Nat.exists_eq_succ_of_ne_zero (by omega : bound ≠ 0)
    rw [List.length_cons] at h
    rw [List.flatMap_cons, List.append_assoc, stringTail?_escapedChar, ih (by omega)]
    rfl

theorem length_le_flatMap_escapedChar (text : List Char) :
    text.length ≤ (text.flatMap escapedChar).length := by
  have hone : ∀ c, 1 ≤ (escapedChar c).length := by
    intro c
    rcases escapedChar_cases c with ⟨escaped, hescaped, -⟩ | ⟨hitself, -⟩
    · simp [hescaped]
    · simp [hitself]
  induction text with
  | nil => exact Nat.le_refl _
  | cons c text ih =>
    rw [List.flatMap_cons, List.length_append, List.length_cons]
    have := hone c
    omega

/-- **A string is read back**, whatever stands in it. -/
theorem stringTail?_writtenString (s : String) (rest : List Char) :
    ∃ text, writtenString s ++ rest = '"' :: text ∧
      stringTail? (text.length + 1) text = some (s.toList, rest) := by
  refine ⟨s.toList.flatMap escapedChar ++ '"' :: rest, by simp [writtenString], ?_⟩
  refine stringTail?_escaped _ _ ?_
  have := length_le_flatMap_escapedChar s.toList
  rw [List.length_append]
  omega

/-! ## Blanks -/

theorem skipBlanks_cons {c : Char} (h : c ≠ ' ' ∧ c ≠ '\t' ∧ c ≠ '\n' ∧ c ≠ '\r')
    (rest : List Char) : skipBlanks (c :: rest) = c :: rest := by
  simp [skipBlanks, h]

theorem skipBlanks_newLine (depth : Nat) (rest : List Char) :
    skipBlanks (newLine depth ++ rest) = skipBlanks rest := by
  have hblanks : ∀ n, skipBlanks (List.replicate n ' ' ++ rest) = skipBlanks rest := by
    intro n
    induction n with
    | zero => rfl
    | succ n ih =>
      rw [← ih, List.replicate_succ, List.cons_append]
      exact List.dropWhile_cons_of_pos rfl
  exact hblanks (2 * depth)

/-! ## Atoms -/

/-- The characters that numbers and words begin with. -/
def beginsAtom (c : Char) : Bool := isDigit c || ['n', 't', 'f', 'N', 'I', '-'].contains c

theorem beginsAtom_of_atom? {text : List Char} {r : Json × List Char} (h : atom? text = some r) :
    ∃ c more, text = c :: more ∧ beginsAtom c = true := by
  cases text with
  | nil =>
    have hnone : atom? [] = none := rfl
    cases hnone.symm.trans h
  | cons c more =>
    refine ⟨c, more, rfl, ?_⟩
    by_contra hc
    rw [beginsAtom, Bool.or_eq_true, not_or, Bool.not_eq_true] at hc
    obtain ⟨hdigit, hletter⟩ := hc
    have hne : ∀ a ∈ ['n', 't', 'f', 'N', 'I', '-'], a ≠ c := by
      rintro a ha rfl
      exact hletter (List.elem_eq_true_of_mem ha)
    have hnone : unsigned? false (c :: more) = none := by
      cases hu : unsigned? false (c :: more) with
      | none => rfl
      | some r =>
        obtain ⟨d, others, hcons, hd⟩ := unsigned?_begins hu
        rw [← (List.cons.inj hcons).1, hdigit] at hd
        cases hd
    have hsign := hne '-' (by decide)
    simp only [atom?, infinity_eq, minusInfinity_eq, word?_of_ne (hne 'n' (by decide)),
      word?_of_ne (hne 't' (by decide)), word?_of_ne (hne 'f' (by decide)),
      word?_of_ne (hne 'N' (by decide)), word?_of_ne (hne 'I' (by decide)),
      word?_of_ne hsign, Option.none_or] at h
    split at h
    next rest heq => exact hsign (List.cons.inj heq).1.symm
    next => cases hnone.symm.trans h

theorem value?_of_beginsAtom {c : Char} (h : beginsAtom c = true) (bound : Nat)
    (more : List Char) : value? (bound + 1) (c :: more) = atom? (c :: more) := by
  have hne : ∀ a, beginsAtom a = false → c ≠ a := by
    rintro a ha rfl
    rw [h] at ha
    cases ha
  rw [value?]
  · exact fun others hothers => hne '"' (by decide) (List.cons.inj hothers).1
  · exact fun others hothers => hne '[' (by decide) (List.cons.inj hothers).1
  · exact fun others hothers => hne '\x7b' (by decide) (List.cons.inj hothers).1

/-! ## Values -/

/-- Values in which no object gives two members one name. -/
inductive Unambiguous : Json → Prop where
  | null : Unambiguous null
  | boolean (value : Bool) : Unambiguous (boolean value)
  | integer (value : Int) : Unambiguous (integer value)
  | number (value : Double) : Unambiguous (number value)
  | string (value : String) : Unambiguous (string value)
  | array {elements : List Json} (h : ∀ e ∈ elements, Unambiguous e) : Unambiguous (array elements)
  | object {members : List (String × Json)} (hnames : (members.map Prod.fst).Nodup)
      (h : ∀ m ∈ members, Unambiguous m.2) : Unambiguous (object members)

/-- A value is read back from what is written for it, with a bound of twice its length. -/
def Reads (v : Json) : Prop :=
  ∀ (depth bound : Nat) (rest : List Char), EndsNumber rest →
    2 * (writtenAt depth v).length ≤ bound →
      value? bound (writtenAt depth v ++ rest) = some (v, rest)

theorem endsNumber_comma (rest : List Char) : EndsNumber (',' :: rest) := by
  intro c hc
  obtain rfl := Option.some.inj hc
  decide

theorem endsNumber_newLine (depth : Nat) (rest : List Char) :
    EndsNumber (newLine depth ++ rest) := by
  intro c hc
  obtain rfl := Option.some.inj hc
  decide

/-- Whether a value is a word or a number. -/
def isAtom : Json → Bool
  | null | boolean _ | integer _ | number _ => true
  | string _ | array _ | object _ => false

theorem atom?_writtenAt {v : Json} (h : v.isAtom = true) (depth : Nat) {rest : List Char}
    (hrest : EndsNumber rest) : atom? (writtenAt depth v ++ rest) = some (v, rest) := by
  cases v with
  | string | array | object => cases h
  | null =>
    have hword := word?_append ['n', 'u', 'l', 'l'] null rest
    simp only [writtenAt, atom?, hword]
    simp
  | boolean value =>
    cases value with
    | false =>
      have hword := word?_append ['f', 'a', 'l', 's', 'e'] (boolean false) rest
      simp only [writtenAt, atom?, hword]
      simp [word?_of_ne]
    | true =>
      have hword := word?_append ['t', 'r', 'u', 'e'] (boolean true) rest
      simp only [writtenAt, atom?, hword]
      simp [word?_of_ne]
  | integer value => exact atom?_toString value hrest
  | number value => exact atom?_written value hrest

/-- The characters that values begin with. -/
def beginsValue (c : Char) : Bool := beginsAtom c || ['"', '[', '\x7b'].contains c

theorem beginsValue_writtenAt (depth : Nat) (v : Json) :
    ∃ c more, writtenAt depth v = c :: more ∧ beginsValue c = true := by
  by_cases h : v.isAtom = true
  · obtain ⟨c, more, htext, hc⟩ := beginsAtom_of_atom? (atom?_writtenAt h depth endsNumber_nil)
    rw [List.append_nil] at htext
    exact ⟨c, more, htext, by rw [beginsValue, hc, Bool.true_or]⟩
  · cases v with
    | null | boolean | integer | number => exact absurd rfl h
    | string s => exact ⟨'"', _, rfl, rfl⟩
    | array elements => cases elements <;> exact ⟨'[', _, rfl, rfl⟩
    | object members => cases members <;> exact ⟨'\x7b', _, rfl, rfl⟩

/-- What begins a value is no blank and ends nothing. -/
theorem ne_of_beginsValue {c : Char} (h : beginsValue c = true) :
    (c ≠ ' ' ∧ c ≠ '\t' ∧ c ≠ '\n' ∧ c ≠ '\r') ∧ c ≠ ']' := by
  have hne : ∀ a, beginsValue a = false → c ≠ a := by
    rintro a ha rfl
    rw [h] at ha
    cases ha
  exact ⟨⟨hne _ (by decide), hne _ (by decide), hne _ (by decide), hne _ (by decide)⟩,
    hne _ (by decide)⟩

/-- Something is written for every value, so a bound that is enough for it can go down. -/
theorem exists_succ_bound {depth bound : Nat} {v : Json}
    (h : 2 * (writtenAt depth v).length ≤ bound) : ∃ left, bound = left + 1 := by
  obtain ⟨c, more, hwritten, -⟩ := beginsValue_writtenAt depth v
  rw [hwritten, List.length_cons] at h
  exact Nat.exists_eq_succ_of_ne_zero (by omega)

theorem reads_of_isAtom {v : Json} (h : v.isAtom = true) : Reads v := by
  intro depth bound rest hrest hbound
  have hatom := atom?_writtenAt h depth hrest
  obtain ⟨c, more, htext, hc⟩ := beginsAtom_of_atom? hatom
  obtain ⟨bound, rfl⟩ := exists_succ_bound hbound
  rw [htext] at hatom ⊢
  rw [value?_of_beginsAtom hc, hatom]

theorem reads_string (s : String) : Reads (string s) := by
  intro depth bound rest hrest hbound
  obtain ⟨text, htext, htail⟩ := stringTail?_writtenString s rest
  obtain ⟨bound, rfl⟩ := exists_succ_bound hbound
  rw [writtenAt, htext, value?, htail]
  show some (string (String.ofList s.toList), rest) = _
  rw [String.ofList_toList]

/-! ### Arrays -/

/-- The elements of an array as they stand between its brackets. -/
def elementsAt (depth : Nat) : List Json → List Char
  | [] => []
  | e :: more => writtenAt depth e ++ moreElements depth more

theorem moreElements_cons (depth : Nat) (e : Json) (more : List Json) :
    moreElements depth (e :: more) = ',' :: (newLine depth ++ elementsAt depth (e :: more)) := by
  rw [moreElements, elementsAt]
  simp

theorem skipBlanks_writtenAt (depth : Nat) (v : Json) (rest : List Char) :
    skipBlanks (writtenAt depth v ++ rest) = writtenAt depth v ++ rest := by
  obtain ⟨c, more, htext, hc⟩ := beginsValue_writtenAt depth v
  rw [htext, List.cons_append, skipBlanks_cons (ne_of_beginsValue hc).1]

theorem elements?_elementsAt {elements : List Json} (h : ∀ e ∈ elements, Reads e)
    (hne : elements ≠ []) (depth outer bound : Nat) (rest : List Char)
    (hbound : 2 * (elementsAt depth elements).length + 1 ≤ bound) :
    elements? bound (elementsAt depth elements ++ (newLine outer ++ ']' :: rest)) =
      some (elements, rest) := by
  induction elements generalizing bound with
  | nil => exact absurd rfl hne
  | cons e more ih =>
    obtain ⟨bound, rfl⟩ := Nat.exists_eq_succ_of_ne_zero (by omega : bound ≠ 0)
    have hread := h e (List.mem_cons_self ..) depth
    have hclosing : skipBlanks (newLine outer ++ ']' :: rest) = ']' :: rest := by
      rw [skipBlanks_newLine, skipBlanks_cons (by decide)]
    rw [elementsAt, List.length_append] at hbound
    rw [elementsAt, List.append_assoc]
    cases more with
    | nil =>
      have hvalue := hread bound _ (endsNumber_newLine outer (']' :: rest)) (by omega)
      rw [moreElements, List.nil_append]
      simp [elements?, hvalue, hclosing]
    | cons next more =>
      rw [moreElements_cons, List.length_cons, List.length_append] at hbound
      rw [moreElements_cons, List.cons_append, List.append_assoc]
      have hvalue := hread bound _ (endsNumber_comma (newLine depth ++
        (elementsAt depth (next :: more) ++ (newLine outer ++ ']' :: rest)))) (by omega)
      have hskip : skipBlanks (newLine depth ++ (elementsAt depth (next :: more) ++
          (newLine outer ++ ']' :: rest))) = elementsAt depth (next :: more) ++
            (newLine outer ++ ']' :: rest) := by
        rw [skipBlanks_newLine, elementsAt, List.append_assoc, skipBlanks_writtenAt]
      have hothers := ih (fun e he => h e (List.mem_cons_of_mem _ he)) (List.cons_ne_nil _ _)
        bound (by omega)
      simp [elements?, hvalue, skipBlanks_cons (c := ',') (by decide), hskip, hothers]

theorem writtenAt_array (depth : Nat) (e : Json) (more : List Json) :
    writtenAt depth (array (e :: more)) = '[' :: (newLine (depth + 1) ++
      (elementsAt (depth + 1) (e :: more) ++ (newLine depth ++ [']']))) := by
  simp [writtenAt, elementsAt]

theorem reads_array {elements : List Json} (h : ∀ e ∈ elements, Reads e) :
    Reads (array elements) := by
  intro depth bound rest hrest hbound
  obtain ⟨bound, rfl⟩ := exists_succ_bound hbound
  cases elements with
  | nil =>
    simp [writtenAt, value?, skipBlanks_cons]
  | cons e more =>
    rw [writtenAt_array] at hbound ⊢
    simp only [List.length_cons, List.length_append, List.length_nil] at hbound
    have helements := elements?_elementsAt h (List.cons_ne_nil e more) (depth + 1) depth
      bound rest (by omega)
    have htext : '[' :: (newLine (depth + 1) ++ (elementsAt (depth + 1) (e :: more) ++
        (newLine depth ++ [']']))) ++ rest = '[' :: (newLine (depth + 1) ++
          (elementsAt (depth + 1) (e :: more) ++ (newLine depth ++ ']' :: rest))) := by
      simp
    obtain ⟨c, others, hfirst, hc⟩ := beginsValue_writtenAt (depth + 1) e
    have hbegins : elementsAt (depth + 1) (e :: more) ++ (newLine depth ++ ']' :: rest) =
        c :: (others ++ (moreElements (depth + 1) more ++ (newLine depth ++ ']' :: rest))) := by
      rw [elementsAt, hfirst]
      simp
    rw [htext, value?, skipBlanks_newLine]
    rw [hbegins] at helements ⊢
    rw [skipBlanks_cons (ne_of_beginsValue hc).1]
    split
    next behind heq => exact absurd (List.cons.inj heq).1 (ne_of_beginsValue hc).2
    next => rw [helements]; rfl

/-! ### Objects -/

/-- The members of an object as they stand between its braces. -/
def membersAt (depth : Nat) : List (String × Json) → List Char
  | [] => []
  | (name, value) :: more =>
    writtenString name ++ ':' :: ' ' :: (writtenAt depth value ++ moreMembers depth more)

theorem moreMembers_cons (depth : Nat) (m : String × Json) (more : List (String × Json)) :
    moreMembers depth (m :: more) = ',' :: (newLine depth ++ membersAt depth (m :: more)) := by
  rw [moreMembers, membersAt]
  simp

/-- A member with a new name comes last. -/
theorem insert_of_not_mem {name : String} {known : List (String × Json)}
    (h : name ∉ known.map Prod.fst) (value : Json) :
    insert name value known = known ++ [(name, value)] := by
  induction known with
  | nil => rfl
  | cons m known ih =>
    rw [List.map_cons, List.mem_cons, not_or] at h
    rw [insert, if_neg (fun hm => h.1 hm.symm), ih h.2, List.cons_append]

theorem members?_membersAt {members : List (String × Json)} (h : ∀ m ∈ members, Reads m.2)
    (hne : members ≠ []) (known : List (String × Json))
    (hnames : ((known ++ members).map Prod.fst).Nodup) (depth outer bound : Nat)
    (rest : List Char) (hbound : 2 * (membersAt depth members).length + 1 ≤ bound) :
    members? bound known (membersAt depth members ++ (newLine outer ++ '\x7d' :: rest)) =
      some (known ++ members, rest) := by
  induction members generalizing known bound with
  | nil => exact absurd rfl hne
  | cons m more ih =>
    obtain ⟨name, value⟩ := m
    obtain ⟨bound, rfl⟩ := Nat.exists_eq_succ_of_ne_zero (by omega : bound ≠ 0)
    have hread : Reads value := h _ (List.mem_cons_self ..)
    have hclosing : skipBlanks (newLine outer ++ '\x7d' :: rest) = '\x7d' :: rest := by
      rw [skipBlanks_newLine, skipBlanks_cons (by decide)]
    have hnew : name ∉ known.map Prod.fst := by
      rw [List.map_append, List.nodup_append] at hnames
      exact fun hm => hnames.2.2 name hm name (List.mem_cons_self ..) rfl
    have hinsert := insert_of_not_mem hnew value
    have hcolon : ∀ behind, skipBlanks (':' :: behind) = ':' :: behind := fun behind =>
      skipBlanks_cons (by decide) behind
    have hvalue : ∀ behind, skipBlanks (' ' :: (writtenAt depth value ++ behind)) =
        writtenAt depth value ++ behind := fun behind =>
      (List.dropWhile_cons_of_pos rfl).trans (skipBlanks_writtenAt depth value behind)
    simp only [membersAt, List.length_append, List.length_cons] at hbound
    rw [membersAt, List.append_assoc, List.cons_append, List.cons_append, List.append_assoc]
    obtain ⟨text, htext, hname⟩ := stringTail?_writtenString name (':' :: ' ' ::
      (writtenAt depth value ++ (moreMembers depth more ++ (newLine outer ++ '\x7d' :: rest))))
    rw [htext]
    cases more with
    | nil =>
      rw [moreMembers, List.nil_append] at hname
      have hfirst := hread depth bound _ (endsNumber_newLine outer ('\x7d' :: rest)) (by omega)
      simp [members?, hname, hcolon, hvalue, hfirst, hclosing, hinsert]
    | cons next more =>
      rw [moreMembers_cons, List.length_cons, List.length_append] at hbound
      rw [moreMembers_cons, List.cons_append, List.append_assoc] at hname
      have hfirst := hread depth bound _ (endsNumber_comma (newLine depth ++
        (membersAt depth (next :: more) ++ (newLine outer ++ '\x7d' :: rest)))) (by omega)
      have hskip : skipBlanks (newLine depth ++ (membersAt depth (next :: more) ++
          (newLine outer ++ '\x7d' :: rest))) = membersAt depth (next :: more) ++
            (newLine outer ++ '\x7d' :: rest) := by
        rw [skipBlanks_newLine, membersAt, writtenString]
        exact skipBlanks_cons (by decide) _
      have hothers := ih (fun m hm => h m (List.mem_cons_of_mem _ hm)) (List.cons_ne_nil _ _)
        (known ++ [(name, value)]) (by rwa [List.append_assoc]) bound (by omega)
      simp [members?, hname, hcolon, hvalue, hfirst, hinsert, hskip, hothers,
        skipBlanks_cons (c := ',') (by decide)]

theorem writtenAt_object (depth : Nat) (m : String × Json) (more : List (String × Json)) :
    writtenAt depth (object (m :: more)) = '\x7b' :: (newLine (depth + 1) ++
      (membersAt (depth + 1) (m :: more) ++ (newLine depth ++ ['\x7d']))) := by
  simp [writtenAt, membersAt]

theorem reads_object {members : List (String × Json)} (hnames : (members.map Prod.fst).Nodup)
    (h : ∀ m ∈ members, Reads m.2) : Reads (object members) := by
  intro depth bound rest hrest hbound
  obtain ⟨bound, rfl⟩ := exists_succ_bound hbound
  cases members with
  | nil =>
    simp [writtenAt, value?, skipBlanks_cons]
  | cons m more =>
    rw [writtenAt_object] at hbound ⊢
    simp only [List.length_cons, List.length_append, List.length_nil] at hbound
    have hmembers := members?_membersAt h (List.cons_ne_nil m more) [] hnames (depth + 1) depth
      bound rest (by omega)
    have htext : '\x7b' :: (newLine (depth + 1) ++ (membersAt (depth + 1) (m :: more) ++
        (newLine depth ++ ['\x7d']))) ++ rest = '\x7b' :: (newLine (depth + 1) ++
          (membersAt (depth + 1) (m :: more) ++ (newLine depth ++ '\x7d' :: rest))) := by
      simp
    obtain ⟨others, hbegins⟩ : ∃ others, membersAt (depth + 1) (m :: more) ++
        (newLine depth ++ '\x7d' :: rest) = '"' :: others := ⟨_, rfl⟩
    rw [htext, value?, skipBlanks_newLine]
    rw [hbegins] at hmembers ⊢
    rw [skipBlanks_cons (by decide)]
    split
    next behind heq => exact absurd (List.cons.inj heq).1 (by decide)
    next => rw [hmembers]; rfl

/-! ### All values -/

/-- **Every value is read back** that gives no two members of an object one name. -/
theorem Unambiguous.reads {v : Json} (h : v.Unambiguous) : Reads v := by
  induction h with
  | null | boolean | integer | number => exact reads_of_isAtom rfl
  | string s => exact reads_string s
  | array _ ih => exact reads_array ih
  | object hnames _ ih => exact reads_object hnames ih

/-- **The text of a value is the value.** -/
theorem ofText?_toText {v : Json} (h : v.Unambiguous) : ofText? v.toText = some v := by
  have hread := h.reads 0 (2 * (writtenAt 0 v).length + 2) [] endsNumber_nil
    (Nat.le_add_right ..)
  have hskip := skipBlanks_writtenAt 0 v []
  rw [List.append_nil] at hread hskip
  rw [ofText?, toText, hskip, hread]
  rfl

/-! ## Line ends

Reading a file turns a carriage return into a newline, so one that stood in a text would be lost.
None does: in strings it is escaped, and line ends are newlines. -/

/-- The characters of a laid-out number. -/
def IsNumberChar (c : Char) : Prop := isDigit c = true ∨ c ∈ ['.', 'e', '+', '-']

theorem isNumberChar_laidOut {d : Digits} (h : ∀ c ∈ d.significant, isDigit c = true) :
    ∀ c ∈ d.laidOut, IsNumberChar c := by
  have hpoint : IsNumberChar '.' := Or.inr (by decide)
  have hzero : IsNumberChar '0' := Or.inl rfl
  have hzeros : ∀ n, ∀ c ∈ List.replicate n '0', IsNumberChar c := fun n c hc =>
    (List.mem_replicate.mp hc).2 ▸ hzero
  have hdigits : ∀ text : List Char, text ⊆ d.significant → ∀ c ∈ text, IsNumberChar c :=
    fun text ht c hc => Or.inl (h c (ht hc))
  unfold Digits.laidOut
  split
  · unfold Digits.positional
    split
    · simp only [List.forall_mem_append, List.forall_mem_cons]
      exact ⟨⟨hzero, hpoint, hzeros _⟩, hdigits _ (List.Subset.refl _)⟩
    · dsimp only
      split
      · simp only [List.forall_mem_append, List.forall_mem_cons]
        exact ⟨⟨hdigits _ (List.Subset.refl _), hzeros _⟩, hpoint, hzero, fun _ hc => nomatch hc⟩
      · simp only [List.forall_mem_append, List.forall_mem_cons]
        exact ⟨hdigits _ (List.take_subset _ _), hpoint, hdigits _ (List.drop_subset _ _)⟩
  · have hpower : ∀ c ∈ Nat.toDigits 10 (d.point - 1).natAbs, IsNumberChar c := fun c hc =>
      Or.inl (isDigit_of_mem_toDigits hc)
    have hrest := hdigits (d.significant.drop 1) (List.drop_subset _ _)
    unfold Digits.scientific
    simp only [List.forall_mem_append, List.forall_mem_cons]
    refine ⟨⟨hdigits _ (List.take_subset _ _), ?_⟩, Or.inr (by decide), ?_, ?_⟩
    · split
      · exact fun _ hc => nomatch hc
      · exact List.forall_mem_cons.mpr ⟨hpoint, hrest⟩
    · split <;> exact Or.inr (by decide)
    · split
      · exact List.forall_mem_cons.mpr ⟨hzero, hpower⟩
      · exact hpower

theorem isNumberChar_digits (d : Decimal) : ∀ c ∈ d.digits.laidOut, IsNumberChar c := by
  obtain ⟨zeros, hdigits⟩ := d.exists_toDigits
  refine isNumberChar_laidOut fun c hc => isDigit_of_mem_toDigits (n := d.coefficient) ?_
  rw [hdigits]
  exact List.mem_append_left _ hc

theorem carriageReturn_not_mem_of_isNumberChar {text : List Char}
    (h : ∀ c ∈ text, IsNumberChar c) : '\r' ∉ text := fun hm => by
  rcases h _ hm with hdigit | hmark
  · cases hdigit
  · exact absurd hmark (by decide)

theorem carriageReturn_not_mem_magnitude (m : Magnitude) : '\r' ∉ m.written := by
  unfold Magnitude.written
  split
  · decide
  · exact carriageReturn_not_mem_of_isNumberChar (isNumberChar_digits m.shortest)

theorem carriageReturn_not_mem_signed (negative : Bool) {text : List Char} (h : '\r' ∉ text) :
    '\r' ∉ signed negative text := by
  cases negative <;> simp [signed, h]

theorem carriageReturn_not_mem_written (x : Double) : '\r' ∉ x.written.toList := by
  cases x with
  | nan =>
    rw [Double.written, nan_eq]
    decide
  | infinite negative => cases negative <;> decide
  | finite negative m =>
    rw [Double.written, String.toList_ofList]
    exact carriageReturn_not_mem_signed negative (carriageReturn_not_mem_magnitude m)

theorem carriageReturn_not_mem_toString (n : Int) : '\r' ∉ (toString n).toList := by
  have hdigits : ∀ k, '\r' ∉ Nat.toDigits 10 k := fun k hm => by
    cases isDigit_of_mem_toDigits hm
  rw [Int.toString_eq_repr, Int.repr_eq_if]
  split
  · rw [Nat.toList_repr]
    exact hdigits _
  · rw [String.toList_append, Nat.toList_repr, List.mem_append, not_or]
    exact ⟨by decide, hdigits _⟩

theorem carriageReturn_not_mem_escapedChar (c : Char) : '\r' ∉ escapedChar c := by
  have hhex : '\r' ∉ Text.hexDigits 4 c.toNat := Text.not_mem_hexDigits (by decide) 4 _
  by_cases hc : c = '\r'
  · subst hc
    decide
  · unfold escapedChar
    repeat' split
    all_goals simp [hhex, Ne.symm hc]

theorem carriageReturn_not_mem_writtenString (s : String) : '\r' ∉ writtenString s := by
  simp [writtenString, List.mem_flatMap, carriageReturn_not_mem_escapedChar]

mutual

/-- No carriage return is written. -/
theorem carriageReturn_not_mem_writtenAt : ∀ (depth : Nat) (v : Json), '\r' ∉ writtenAt depth v
  | _, null => by simp [writtenAt]
  | _, boolean value => by cases value <;> simp [writtenAt]
  | _, integer value => carriageReturn_not_mem_toString value
  | _, number value => carriageReturn_not_mem_written value
  | _, string value => carriageReturn_not_mem_writtenString value
  | _, array [] => by simp [writtenAt]
  | depth, array (e :: more) => by
    have he := carriageReturn_not_mem_writtenAt (depth + 1) e
    have hmore := carriageReturn_not_mem_moreElements (depth + 1) more
    simp [writtenAt, newLine, List.mem_replicate, he, hmore]
  | _, object [] => by simp [writtenAt]
  | depth, object ((name, value) :: more) => by
    have hv := carriageReturn_not_mem_writtenAt (depth + 1) value
    have hmore := carriageReturn_not_mem_moreMembers (depth + 1) more
    have hname := carriageReturn_not_mem_writtenString name
    simp [writtenAt, newLine, List.mem_replicate, hv, hmore, hname]

theorem carriageReturn_not_mem_moreElements :
    ∀ (depth : Nat) (elements : List Json), '\r' ∉ moreElements depth elements
  | _, [] => List.not_mem_nil
  | depth, e :: more => by
    have he := carriageReturn_not_mem_writtenAt depth e
    have hmore := carriageReturn_not_mem_moreElements depth more
    simp [moreElements, newLine, List.mem_replicate, he, hmore]

theorem carriageReturn_not_mem_moreMembers :
    ∀ (depth : Nat) (members : List (String × Json)), '\r' ∉ moreMembers depth members
  | _, [] => List.not_mem_nil
  | depth, (name, value) :: more => by
    have hv := carriageReturn_not_mem_writtenAt depth value
    have hmore := carriageReturn_not_mem_moreMembers depth more
    have hname := carriageReturn_not_mem_writtenString name
    simp [moreMembers, newLine, List.mem_replicate, hv, hmore, hname]

end

end Json
end HangulScript
