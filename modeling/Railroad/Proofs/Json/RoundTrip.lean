/-
# Reading what was written

Every value is read as it was written, in any style, but for the doubles that are not finite:
these are written as `null` and read as that (`Json.exchanged`).  Containers must not be nested
deeper than they are read, and whole numbers not be longer than they are read (`Json.Fits`).
-/

import Railroad.Proofs.Json.Scalars

namespace Railroad
namespace Json

open Text (Reader Malformed)

mutual

/-- What is read where a value was written: a double that is not finite is lost. -/
def exchanged : Json → Json
  | null => null
  | bool b => bool b
  | integer n => integer n
  | real x => if x.isFinite then real x else null
  | string text => string text
  | array items => array (exchangedItems items)
  | object fields => object (exchangedFields fields)

/-- What is read where the items of an array were written. -/
def exchangedItems : List Json → List Json
  | [] => []
  | item :: items => item.exchanged :: exchangedItems items

/-- What is read where the fields of an object were written. -/
def exchangedFields : List (String × Json) → List (String × Json)
  | [] => []
  | (name, value) :: fields => (name, value.exchanged) :: exchangedFields fields

end

/-- The items of an array are written and read one by one. -/
@[simp] theorem exchangedItems_eq_map (items : List Json) :
    exchangedItems items = items.map exchanged := by
  induction items with
  | nil => rw [exchangedItems, List.map_nil]
  | cons item items ih => rw [exchangedItems, ih, List.map_cons]

/-- The fields of an object are written and read one by one, under their names. -/
@[simp] theorem exchangedFields_eq_map (fields : List (String × Json)) :
    exchangedFields fields = fields.map fun field => (field.1, field.2.exchanged) := by
  induction fields with
  | nil => rw [exchangedFields, List.map_nil]
  | cons field fields ih => rw [exchangedFields, ih, List.map_cons]

/-- A value whose containers are nested at most `depth` deep, the innermost of them holding
only empty ones, and whose whole numbers are not too long. -/
def Fits : Nat → Json → Prop
  | _, integer n => (Number.digits n.natAbs).length ≤ Number.maxDigits
  | 0, array items => items = []
  | 0, object fields => fields = []
  | depth + 1, array items => ∀ item ∈ items, Fits depth item
  | depth + 1, object fields => ∀ field ∈ fields, Fits depth field.2
  | _, _ => True

@[simp] theorem fits_null (depth : Nat) : null.Fits depth := by cases depth <;> exact trivial

@[simp] theorem fits_bool (depth : Nat) (b : Bool) : (bool b).Fits depth := by
  cases depth <;> exact trivial

@[simp] theorem fits_real (depth : Nat) (x : Float) : (real x).Fits depth := by
  cases depth <;> exact trivial

@[simp] theorem fits_string (depth : Nat) (text : String) : (string text).Fits depth := by
  cases depth <;> exact trivial

/-- An array is one container deeper than its items. -/
@[simp] theorem fits_array_succ (depth : Nat) (items : List Json) :
    (array items).Fits (depth + 1) ↔ ∀ item ∈ items, item.Fits depth :=
  Iff.rfl

/-- An object is one container deeper than its fields. -/
@[simp] theorem fits_object_succ (depth : Nat) (fields : List (String × Json)) :
    (object fields).Fits (depth + 1) ↔ ∀ field ∈ fields, field.2.Fits depth :=
  Iff.rfl

/-! ### Blanks -/

/-- A text of blanks only. -/
def Blank (cs : List Char) : Prop := ∀ c ∈ cs, isBlank c = true

theorem blank_nil : Blank [] := nofun

/-- Blanks are skipped up to the first character that is none. -/
theorem skipBlanks_append {lead : List Char} (hlead : Blank lead) {c : Char}
    (hc : isBlank c = false) (cs : List Char) : skipBlanks (lead ++ c :: cs) = c :: cs := by
  rw [skipBlanks, List.dropWhile_append_of_pos hlead, List.dropWhile_cons_of_neg]
  rw [hc]
  exact Bool.false_ne_true

/-- What stands between the parts of a value is blank. -/
theorem blank_lineBreak (style : Style) (level : Nat) : Blank (style.lineBreak level) := by
  intro c hc
  cases style with
  | compact => cases hc
  | indented width =>
      obtain rfl | hc := List.mem_cons.1 hc
      · rfl
      · rw [List.eq_of_mem_replicate hc]
        rfl

/-- A number does not go on behind it into a line break or what closes a container. -/
theorem endsNumber_lineBreak (style : Style) (level : Nat) {rest : List Char}
    (hrest : EndsNumber rest) : EndsNumber (style.lineBreak level ++ rest) := by
  cases style with
  | compact => exact hrest
  | indented width => exact endsNumber_cons _ (by decide)

/-! ### Values by their first character -/

/-- What reads the values inside a container, if any may stand there. -/
def inner? : Nat → Option (Reader Malformed Json)
  | 0 => none
  | depth + 1 => some (value depth)

/-- A value is read from the first character that is no blank. -/
theorem read_value (depth : Nat) (cs : List Char) :
    (value depth).read cs = valueAfterBlanks (inner? depth) cs := by
  cases depth <;> rfl

/-- Which kind of value is read is told by the first character that is no blank. -/
theorem read_value_cons (depth : Nat) {lead : List Char} (hlead : Blank lead) {c : Char}
    (hc : isBlank c = false) (cs : List Char) :
    (value depth).read (lead ++ c :: cs) = valueAt (inner? depth) c cs := by
  rw [read_value, valueAfterBlanks, skipBlanks_append hlead hc]

/-- Words and numbers begin with one of these characters. -/
def StartsScalar (c : Char) : Prop := c = '-' ∨ c.isDigit = true ∨ c = 'n' ∨ c = 't' ∨ c = 'f'

/-- A character that starts a scalar is none that does not. -/
theorem StartsScalar.ne {c d : Char} (h : StartsScalar c) (hd : ¬ StartsScalar d) : c ≠ d := by
  rintro rfl
  exact hd h

instance (c : Char) : Decidable (StartsScalar c) := inferInstanceAs (Decidable (_ ∨ _))

/-- No scalar starts with a blank. -/
theorem StartsScalar.not_isBlank {c : Char} (h : StartsScalar c) : isBlank c = false := by
  have hspace : c ≠ ' ' := h.ne (by decide)
  have htab : c ≠ '\t' := h.ne (by decide)
  have hnewline : c ≠ '\n' := h.ne (by decide)
  have hreturn : c ≠ '\r' := h.ne (by decide)
  simp [isBlank, hspace, htab, hnewline, hreturn]

/-- A word or a number is read as a value. -/
theorem read_scalar (depth : Nat) {lead text rest : List Char} {v : Json} (hlead : Blank lead)
    (hstart : ∃ c tail, text = c :: tail ∧ StartsScalar c)
    (hread : scalar (text ++ rest) = .ok (v, rest)) :
    (value depth).read (lead ++ (text ++ rest)) = .ok (v, rest) := by
  obtain ⟨c, tail, rfl, hc⟩ := hstart
  rw [List.cons_append, read_value_cons depth hlead hc.not_isBlank, valueAt,
    if_neg (hc.ne (by decide)), if_neg (hc.ne (by decide)), if_neg (hc.ne (by decide))]
  exact hread

/-- A quoted text behind blanks is read, and nothing behind it. -/
theorem read_string (depth : Nat) (text : String) {lead : List Char} (hlead : Blank lead)
    (rest : List Char) :
    (value depth).read (lead ++ (stringText text ++ rest)) = .ok (string text, rest) := by
  have htext : stringText text ++ rest =
      '"' :: (text.toList.flatMap stringChar ++ '"' :: rest) := by
    rw [stringText, List.cons_append, List.cons_append, List.append_assoc, List.singleton_append]
  rw [htext, read_value_cons depth hlead rfl, valueAt, if_pos rfl, stringRest_flatMap]
  dsimp only
  rw [String.ofList_toList]

/-- An opening bracket is followed by the items of an array. -/
theorem read_array (depth : Nat) {lead : List Char} (hlead : Blank lead) (cs : List Char) :
    (value depth).read (lead ++ '[' :: cs) = arrayRest (inner? depth) cs := by
  rw [read_value_cons depth hlead rfl, valueAt, if_neg (by decide), if_pos rfl]

/-- An opening brace is followed by the fields of an object. -/
theorem read_object (depth : Nat) {lead : List Char} (hlead : Blank lead) (cs : List Char) :
    (value depth).read (lead ++ '\x7b' :: cs) = objectRest (inner? depth) cs := by
  rw [read_value_cons depth hlead rfl, valueAt, if_neg (by decide), if_neg (by decide), if_pos rfl]

/-! ### How values begin -/

/-- A written decimal starts as scalars do. -/
theorem start_decimal (d : Number.Decimal) (h : d.Normal) :
    ∃ c tail, d.text = c :: tail ∧ StartsScalar c := by
  have hregular := Number.Decimal.regular_spelling h
  obtain ⟨c, cs, hwhole⟩ := List.exists_cons_of_ne_nil hregular.whole_ne_nil
  have hc : c.isDigit = true := hregular.whole_digits c (hwhole ▸ List.mem_cons_self)
  rw [Number.Decimal.text_eq_spelling]
  split_ifs
  · exact ⟨_, _, rfl, .inl rfl⟩
  · rw [Number.Spelling.text, hwhole]
    exact ⟨_, _, rfl, .inr (.inl hc)⟩

/-- A written integer starts as scalars do. -/
theorem start_integer (n : Int) : ∃ c tail, Number.signedDigits n = c :: tail ∧ StartsScalar c := by
  rw [Number.signedDigits]
  split_ifs
  · exact ⟨_, _, rfl, .inl rfl⟩
  · obtain ⟨c, cs, hdigits⟩ := List.exists_cons_of_ne_nil (Number.digits_ne_nil n.natAbs)
    have hc : c.isDigit = true := Number.isDigit_of_mem_digits (hdigits ▸ List.mem_cons_self)
    exact ⟨c, cs, hdigits, .inr (.inl hc)⟩

theorem start_null : ∃ c tail, "null".toList = c :: tail ∧ StartsScalar c :=
  ⟨'n', ['u', 'l', 'l'], by simp, by decide⟩

theorem start_bool (b : Bool) :
    ∃ c tail, (if b then "true" else "false").toList = c :: tail ∧ StartsScalar c := by
  cases b
  · exact ⟨'f', ['a', 'l', 's', 'e'], by simp, by decide⟩
  · exact ⟨'t', ['r', 'u', 'e'], by simp, by decide⟩

/-- The text of a double is that of a number if it is finite, and a word otherwise. -/
theorem realText_eq (x : Float) :
    (∃ d : Number.Decimal, d.Normal ∧ d.toFloat = x ∧ realText x = d.text ∧ x.isFinite = true) ∨
      (realText x = "null".toList ∧ x.isFinite = false) := by
  rw [realText]
  by_cases hfinite : x.isFinite = true
  · obtain ⟨negative, rank, hshape⟩ := (Number.isFinite_iff x).1 hfinite
    refine .inl ⟨Number.shortest negative rank, Number.Decimal.normal_shortest negative rank,
      Number.toFloat_shortest_of_shape hshape, ?_, hfinite⟩
    rw [hshape]
  · refine .inr ⟨?_, Bool.eq_false_of_not_eq_true hfinite⟩
    split
    case h_1 negative rank hshape =>
      exact absurd ((Number.isFinite_iff x).2 ⟨negative, rank, hshape⟩) hfinite
    case h_2 => rfl

/-- A written double starts as scalars do, also one that is written as null. -/
theorem start_real (x : Float) : ∃ c tail, realText x = c :: tail ∧ StartsScalar c := by
  obtain ⟨d, hnormal, -, htext, -⟩ | ⟨htext, -⟩ := realText_eq x
  · rw [htext]
    exact start_decimal d hnormal
  · rw [htext]
    exact start_null

/-- A written double is read as the number or the null that its text stands for. -/
theorem scalar_real (x : Float) {rest : List Char} (hrest : EndsNumber rest) :
    scalar (realText x ++ rest) = .ok ((real x).exchanged, rest) := by
  rw [exchanged]
  obtain ⟨d, hnormal, rfl, htext, hfinite⟩ | ⟨htext, hfinite⟩ := realText_eq x
  · rw [htext, if_pos hfinite, scalar_decimal hnormal hrest]
  · rw [htext, hfinite, if_neg Bool.false_ne_true, scalar_null]

section

variable (style : Style)

/-- No value begins with a blank or with what closes an array. -/
theorem start_chars (level : Nat) (v : Json) :
    ∃ c tail, chars style level v = c :: tail ∧ isBlank c = false ∧ c ≠ ']' := by
  have hscalar : ∀ {text : List Char}, (∃ c tail, text = c :: tail ∧ StartsScalar c) →
      ∃ c tail, text = c :: tail ∧ isBlank c = false ∧ c ≠ ']' := by
    rintro _ ⟨c, tail, rfl, hc⟩
    exact ⟨c, tail, rfl, hc.not_isBlank, hc.ne (by decide)⟩
  cases v with
  | null => exact hscalar start_null
  | bool b => exact hscalar (start_bool b)
  | integer n => exact hscalar (start_integer n)
  | real x => exact hscalar (start_real x)
  | string text => exact ⟨_, _, rfl, rfl, by decide⟩
  | array items => cases items <;> exact ⟨_, _, rfl, rfl, by decide⟩
  | object fields => cases fields <;> exact ⟨_, _, rfl, rfl, by decide⟩

end

/-! ### Containers -/

section

variable {reader : Reader Malformed Json} {cs rest tail last : List Char} {v : Json}

/-- An item that was read is the last, or a comma and more items are behind it. -/
theorem items_of_read {c : Char} (hread : reader.read cs = .ok (v, rest))
    (hnext : skipBlanks rest = c :: tail) :
    items reader cs =
      if c = ',' then
        match items reader tail with
        | .error e => .error e
        | .ok (others, rest) => .ok (v :: others, rest)
      else if c = ']' then .ok ([v], tail)
      else .error .malformed := by
  rw [items]
  split
  -- the reader succeeds, and something comes next: the other cases are out of the question
  case h_1 e herror =>
    rw [hread] at herror
    cases herror
  case h_2 w behind hbehind =>
    rw [hread] at hbehind
    obtain ⟨rfl, rfl⟩ := Prod.mk.inj (Except.ok.inj hbehind)
    split
    case h_1 hnone =>
      rw [hnext] at hnone
      cases hnone
    case h_2 d others hmore =>
      rw [hnext] at hmore
      obtain ⟨rfl, rfl⟩ := List.cons.inj hmore
      rfl

/-- An item with the closing bracket behind it is the last one. -/
theorem items_last (hread : reader.read cs = .ok (v, rest))
    (hclose : skipBlanks rest = ']' :: tail) : items reader cs = .ok ([v], tail) := by
  rw [items_of_read hread hclose, if_neg (by decide), if_pos rfl]

/-- An item with a comma behind it is followed by more. -/
theorem items_comma {vs : List Json} (hread : reader.read cs = .ok (v, rest))
    (hcomma : skipBlanks rest = ',' :: tail) (hmore : items reader tail = .ok (vs, last)) :
    items reader cs = .ok (v :: vs, last) := by
  rw [items_of_read hread hcomma, if_pos rfl, hmore]

/-- A field that was read is the last, or a comma and more fields are behind it. -/
theorem fields_of_read {name : String} {body : List Char} {c : Char}
    (hname : fieldName cs = .ok (name, body)) (hread : reader.read body = .ok (v, rest))
    (hnext : skipBlanks rest = c :: tail) :
    fields reader cs =
      if c = ',' then
        match fields reader tail with
        | .error e => .error e
        | .ok (others, rest) => .ok ((name, v) :: others, rest)
      else if c = '\x7d' then .ok ([(name, v)], tail)
      else .error .malformed := by
  rw [fields]
  split
  -- the name and the value are read, and something comes next
  case h_1 e herror =>
    rw [hname] at herror
    cases herror
  case h_2 found behind hbehind =>
    rw [hname] at hbehind
    obtain ⟨rfl, rfl⟩ := Prod.mk.inj (Except.ok.inj hbehind)
    split
    case h_1 e herror =>
      rw [hread] at herror
      cases herror
    case h_2 w behind hbehind =>
      rw [hread] at hbehind
      obtain ⟨rfl, rfl⟩ := Prod.mk.inj (Except.ok.inj hbehind)
      split
      case h_1 hnone =>
        rw [hnext] at hnone
        cases hnone
      case h_2 d others hmore =>
        rw [hnext] at hmore
        obtain ⟨rfl, rfl⟩ := List.cons.inj hmore
        rfl

/-- A field with the closing brace behind it is the last one. -/
theorem fields_last {name : String} {body : List Char} (hname : fieldName cs = .ok (name, body))
    (hread : reader.read body = .ok (v, rest)) (hclose : skipBlanks rest = '\x7d' :: tail) :
    fields reader cs = .ok ([(name, v)], tail) := by
  rw [fields_of_read hname hread hclose, if_neg (by decide), if_pos rfl]

/-- A field with a comma behind it is followed by more. -/
theorem fields_comma {name : String} {body : List Char} {vs : List (String × Json)}
    (hname : fieldName cs = .ok (name, body)) (hread : reader.read body = .ok (v, rest))
    (hcomma : skipBlanks rest = ',' :: tail) (hmore : fields reader tail = .ok (vs, last)) :
    fields reader cs = .ok ((name, v) :: vs, last) := by
  rw [fields_of_read hname hread hcomma, if_pos rfl, hmore]

end

section

variable (style : Style)

/-- A name and the colon behind it are read; of what stands behind the colon nothing is. -/
theorem fieldName_append (name : String) {lead : List Char} (hlead : Blank lead)
    (cs : List Char) :
    fieldName (lead ++ (stringText name ++ (style.colon ++ cs))) =
      .ok (name, style.colon.tail ++ cs) := by
  have htext : stringText name ++ (style.colon ++ cs) =
      '"' :: (name.toList.flatMap stringChar ++ '"' :: (style.colon ++ cs)) := by
    rw [stringText, List.cons_append, List.cons_append, List.append_assoc, List.singleton_append]
  have hcolon : skipBlanks (style.colon ++ cs) = ':' :: (style.colon.tail ++ cs) := by
    cases style <;> exact skipBlanks_append blank_nil rfl _
  -- blanks, the opening quote, the characters of the name, the closing quote, a colon
  rw [htext, fieldName, skipBlanks_append hlead rfl]
  dsimp only
  rw [if_pos rfl, stringRest_flatMap]
  dsimp only
  rw [hcolon]
  dsimp only
  rw [if_pos rfl, String.ofList_toList]

theorem blank_tail_colon : Blank style.colon.tail := by
  cases style with
  | compact => exact blank_nil
  | indented width =>
      rintro c hc
      rw [List.mem_singleton.1 hc]
      rfl

/-- The reader reads the given values as they were written, at any level. -/
def ReadsAll (reader : Reader Malformed Json) (vs : List Json) : Prop :=
  ∀ v ∈ vs, ∀ (level : Nat) {lead rest : List Char}, Blank lead → EndsNumber rest →
    reader.read (lead ++ (chars style level v ++ rest)) = .ok (v.exchanged, rest)

variable {reader : Reader Malformed Json} (level outer : Nat) (rest : List Char)

/-- The items of an array, from any of them on. -/
theorem items_chars {v : Json} {vs : List Json} (h : ReadsAll style reader (v :: vs))
    {lead : List Char} (hlead : Blank lead) :
    items reader (lead ++ (chars style level v ++ (itemsAfter style level vs ++
        (style.lineBreak outer ++ ']' :: rest)))) =
      .ok ((v :: vs).map exchanged, rest) := by
  -- by induction on the items behind the first, with any blanks in front of it
  induction vs generalizing v lead with
  | nil =>
      have hends : EndsNumber (style.lineBreak outer ++ ']' :: rest) :=
        endsNumber_lineBreak style outer (endsNumber_cons rest (by decide))
      have hskip : skipBlanks (style.lineBreak outer ++ ']' :: rest) = ']' :: rest :=
        skipBlanks_append (blank_lineBreak style outer) rfl rest
      rw [itemsAfter, List.nil_append]
      exact items_last (h v List.mem_cons_self level hlead hends) hskip
  | cons w vs ih =>
      -- behind the comma there is a line break, which is blank, and the next item
      have hmore := ih (fun u hu => h u (List.mem_cons_of_mem v hu)) (blank_lineBreak style level)
      have hafter : itemsAfter style level (w :: vs) ++ (style.lineBreak outer ++ ']' :: rest) =
          ',' :: (style.lineBreak level ++ (chars style level w ++ (itemsAfter style level vs ++
            (style.lineBreak outer ++ ']' :: rest)))) := by
        simp only [itemsAfter, List.cons_append, List.append_assoc]
      rw [hafter]
      exact items_comma (h v List.mem_cons_self level hlead (endsNumber_cons _ (by decide)))
        (skipBlanks_append blank_nil rfl _) hmore

/-- The fields of an object, from any of them on. -/
theorem fields_chars {name : String} {v : Json} {vs : List (String × Json)}
    (h : ReadsAll style reader (((name, v) :: vs).map Prod.snd)) {lead : List Char}
    (hlead : Blank lead) :
    fields reader (lead ++ (stringText name ++ (style.colon ++ (chars style level v ++
        (fieldsAfter style level vs ++ (style.lineBreak outer ++ '\x7d' :: rest)))))) =
      .ok (((name, v) :: vs).map fun field => (field.1, field.2.exchanged), rest) := by
  -- by induction on the fields behind the first, as for the items of an array
  induction vs generalizing name v lead with
  | nil =>
      have hends : EndsNumber (style.lineBreak outer ++ '\x7d' :: rest) :=
        endsNumber_lineBreak style outer (endsNumber_cons rest (by decide))
      have hskip : skipBlanks (style.lineBreak outer ++ '\x7d' :: rest) = '\x7d' :: rest :=
        skipBlanks_append (blank_lineBreak style outer) rfl rest
      rw [fieldsAfter, List.nil_append]
      exact fields_last (fieldName_append style name hlead _)
        (h v List.mem_cons_self level (blank_tail_colon style) hends) hskip
  | cons next vs ih =>
      obtain ⟨nextName, w⟩ := next
      have hmore := ih (fun u hu => h u (List.mem_cons_of_mem v hu)) (blank_lineBreak style level)
      have hafter : fieldsAfter style level ((nextName, w) :: vs) ++
          (style.lineBreak outer ++ '\x7d' :: rest) =
          ',' :: (style.lineBreak level ++ (stringText nextName ++ (style.colon ++
            (chars style level w ++ (fieldsAfter style level vs ++
              (style.lineBreak outer ++ '\x7d' :: rest)))))) := by
        simp only [fieldsAfter, List.cons_append, List.append_assoc]
      rw [hafter]
      exact fields_comma (fieldName_append style name hlead _)
        (h v List.mem_cons_self level (blank_tail_colon style) (endsNumber_cons _ (by decide)))
        (skipBlanks_append blank_nil rfl _) hmore

/-- The items of an array are read up to its closing bracket, if each of them is read. -/
theorem arrayRest_chars {v : Json} {vs : List Json} (h : ReadsAll style reader (v :: vs)) :
    arrayRest (some reader) (style.lineBreak level ++ (chars style level v ++
        (itemsAfter style level vs ++ (style.lineBreak outer ++ ']' :: rest)))) =
      .ok (array ((v :: vs).map exchanged), rest) := by
  have hitems := items_chars style level outer rest h blank_nil
  obtain ⟨c, tail, hchars, hblank, hclose⟩ := start_chars style level v
  rw [hchars, List.nil_append, List.cons_append] at hitems
  rw [hchars, List.cons_append, arrayRest,
    skipBlanks_append (blank_lineBreak style level) hblank]
  dsimp only
  rw [if_neg hclose, hitems]

/-- The fields of an object are read up to its closing brace, if the value of each is read. -/
theorem objectRest_chars {name : String} {v : Json} {vs : List (String × Json)}
    (h : ReadsAll style reader (((name, v) :: vs).map Prod.snd)) :
    objectRest (some reader) (style.lineBreak level ++ (stringText name ++ (style.colon ++
        (chars style level v ++ (fieldsAfter style level vs ++
          (style.lineBreak outer ++ '\x7d' :: rest)))))) =
      .ok (object (((name, v) :: vs).map fun field => (field.1, field.2.exchanged)), rest) := by
  have hfields := fields_chars style level outer rest h blank_nil
  rw [List.nil_append, stringText, List.cons_append, List.cons_append] at hfields
  rw [stringText, List.cons_append, List.cons_append, objectRest,
    skipBlanks_append (blank_lineBreak style level) rfl]
  dsimp only
  rw [if_neg (by decide), hfields]

/-- **A value is read as it was written**, whatever stands around it, if it is not nested too
deep. -/
theorem read_chars (depth : Nat) {v : Json} (hfits : Fits depth v) {lead rest : List Char}
    (hlead : Blank lead) (hrest : EndsNumber rest) :
    (value depth).read (lead ++ (chars style level v ++ rest)) = .ok (v.exchanged, rest) := by
  -- the values inside a container are read by the reader of the depth below
  induction depth using Nat.strongRecOn generalizing v level lead rest with
  | ind depth ih =>
      cases v with
      | null => exact read_scalar depth hlead start_null (scalar_null rest)
      | bool b => exact read_scalar depth hlead (start_bool b) (scalar_bool b rest)
      | integer n =>
          rw [Fits] at hfits
          exact read_scalar depth hlead (start_integer n) (scalar_integer hfits hrest)
      | real x => exact read_scalar depth hlead (start_real x) (scalar_real x hrest)
      | string text => exact read_string depth text hlead rest
      | array vs =>
          cases vs with
          | nil =>
              have hempty : arrayRest (inner? depth) (']' :: rest) = .ok (array [], rest) := by
                rw [arrayRest]
                rfl
              exact (read_array depth hlead _).trans hempty
          | cons v vs =>
              cases depth with
              | zero => cases hfits
              | succ depth =>
                  have hall : ReadsAll style (value depth) (v :: vs) :=
                    fun w hw level _ _ hlead hrest =>
                      ih depth (Nat.lt_succ_self depth) level (hfits w hw) hlead hrest
                  have hread := arrayRest_chars style (level + 1) level rest hall
                  rw [exchanged, exchangedItems_eq_map, ← hread]
                  simp only [chars, List.cons_append, List.append_assoc, List.nil_append]
                  exact read_array (depth + 1) hlead _
      | object vs =>
          cases vs with
          | nil =>
              have hempty : objectRest (inner? depth) ('\x7d' :: rest) = .ok (object [], rest) := by
                rw [objectRest]
                rfl
              exact (read_object depth hlead _).trans hempty
          | cons field vs =>
              obtain ⟨name, v⟩ := field
              cases depth with
              | zero => cases hfits
              | succ depth =>
                  have hall : ReadsAll style (value depth) (((name, v) :: vs).map Prod.snd) := by
                    intro w hw level _ _ hlead hrest
                    obtain ⟨field, hfield, rfl⟩ := List.mem_map.1 hw
                    exact ih depth (Nat.lt_succ_self depth) level (hfits field hfield) hlead hrest
                  have hread := objectRest_chars style (level + 1) level rest hall
                  rw [exchanged, exchangedFields_eq_map, ← hread]
                  simp only [chars, List.cons_append, List.append_assoc, List.nil_append]
                  exact read_object (depth + 1) hlead _

/-- **The text of a value is read as the value**, in any style, but for the doubles that are not
finite. -/
theorem ofText?_text {depth : Nat} {v : Json} (hfits : Fits depth v) :
    ofText? depth (v.text style) = some v.exchanged := by
  have hread := read_chars style 0 depth hfits blank_nil endsNumber_nil
  rw [List.nil_append, List.append_nil] at hread
  rw [ofText?, text, String.toList_ofList, hread]
  rfl

end

end Json
end Railroad
