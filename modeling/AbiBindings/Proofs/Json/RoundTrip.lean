import AbiBindings.Proofs.Json.Tokens

/-!
Reading what was written. In every style, the text of a value without floating-point numbers and
repeated keys is read as this value with its fields sorted, so the style makes no difference.
-/

namespace AbiBindings.Json

open Outcome
open Text (NotAhead)

section

variable {limit : Option Nat} (style : Style)

theorem writeItems_eq_map (level : Nat) (items : List Json) :
    writeItems style level items = items.map (writeAt style level) := by
  induction items with
  | nil => rfl
  | cons item rest ih => rw [writeItems, ih, List.map_cons]

theorem writeFields_eq_map (level : Nat) (fields : List (Text × Json)) :
    writeFields style level fields = fields.map fun f => (f.1, writeAt style level f.2) := by
  induction fields with
  | nil => rfl
  | cons field rest ih =>
    obtain ⟨key, value⟩ := field
    rw [writeFields, ih, List.map_cons]

/-- The text of a value starts in ASCII, and neither with a blank nor with what closes a list. -/
theorem exists_writeAt_eq_cons {json : Json} (h : json.Plain limit) (level : Nat) :
    ∃ c rest, writeAt style level json = c :: rest ∧ c.val < 0x80 ∧ isTokenBlank c = false ∧
      c ≠ CodePoint.ofChar ']' := by
  cases json with
  | null => exact ⟨_, _, rfl, by decide, by decide, by decide⟩
  | bool value => cases value <;> exact ⟨_, _, rfl, by decide, by decide, by decide⟩
  | int value =>
    obtain ⟨d, digits, heq, hd⟩ := Text.exists_ofInt_eq_cons value
    rw [writeAt, heq]
    rcases hd with rfl | hd
    · exact ⟨_, _, rfl, by decide, by decide, by decide⟩
    · have hbracket : d ≠ CodePoint.ofChar ']' := by
        rintro rfl
        exact absurd hd (by decide)
      simp only [CodePoint.isDigit, Bool.and_eq_true, decide_eq_true_eq] at hd
      refine ⟨d, digits, rfl, by omega, ?_, hbracket⟩
      simp only [isTokenBlank, Bool.or_eq_false_iff, beq_eq_false_iff_ne]
      omega
  | float value => exact h.elim
  | str value => exact ⟨_, _, rfl, by decide, by decide, by decide⟩
  | arr items =>
    rw [writeAt, enclose]
    split
    · exact ⟨_, _, rfl, by decide, by decide, by decide⟩
    · exact ⟨_, _, rfl, by decide, by decide, by decide⟩
  | obj fields =>
    rw [writeAt, enclose]
    split
    · exact ⟨_, _, rfl, by decide, by decide, by decide⟩
    · exact ⟨_, _, rfl, by decide, by decide, by decide⟩

theorem notAhead_writeAt {json : Json} (h : json.Plain limit) (level : Nat)
    (rest : Text) : NotAhead isTokenBlank (writeAt style level json ++ rest) := by
  obtain ⟨c, tail, heq, -, hc, -⟩ := exists_writeAt_eq_cons style h level
  rw [heq]
  exact Text.notAhead_cons.mpr hc

/-- With enough steps, the text of a value is read as the value with its fields sorted, whatever
follows it that does not continue a number. -/
def Reads (limit : Option Nat) (style : Style) (json : Json) : Prop :=
  ∀ (level depth : Nat) (rest : Text), 2 * (writeAt style level json).length ≤ depth + 1 →
    NotAhead isNumberPart rest →
    readValue limit (depth + 1) (writeAt style level json ++ rest) = .ok (json.sorted, rest)

theorem readValue_scalar (depth : Nat) {c : CodePoint} (t : Text)
    (hquote : c ≠ CodePoint.ofChar '"') (hbracket : c ≠ CodePoint.ofChar '[')
    (hbrace : c.val ≠ 0x7B) :
    readValue limit (depth + 1) (c :: t) = readScalar limit (c :: t) := by
  rw [readValue, if_neg hquote, if_neg hbracket, if_neg hbrace]

theorem reads_null : Reads limit style null := fun _ depth _ _ _ =>
  readValue_scalar depth _ (by decide) (by decide) (by decide)

theorem reads_bool (value : Bool) : Reads limit style (bool value) := by
  intro level depth rest _ _
  cases value with
  | false => exact readValue_scalar depth _ (by decide) (by decide) (by decide)
  | true => exact readValue_scalar depth _ (by decide) (by decide) (by decide)

theorem reads_int {value : Int} (h : (int value).Plain limit) :
    Reads limit style (int value) := by
  intro level depth rest _ hrest
  obtain ⟨c, tail, heq, hc⟩ := Text.exists_ofInt_eq_cons value
  have hscalar : readValue limit (depth + 1) (c :: (tail ++ rest)) =
      readScalar limit (c :: (tail ++ rest)) := by
    rcases hc with rfl | hc
    · exact readValue_scalar depth _ (by decide) (by decide) (by decide)
    · simp only [CodePoint.isDigit, Bool.and_eq_true, decide_eq_true_eq] at hc
      apply readValue_scalar depth
      · rintro rfl
        exact absurd hc (by decide)
      · rintro rfl
        exact absurd hc (by decide)
      · omega
  rw [writeAt, heq, List.cons_append, hscalar, ← List.cons_append, ← heq, sorted]
  exact readScalar_ofInt h hrest

theorem reads_str (value : Text) : Reads limit style (str value) := by
  intro level depth rest _ _
  have htext : writeText value ++ rest =
      CodePoint.ofChar '"' :: (value.flatMap escapeOne ++ CodePoint.ofChar '"' :: rest) := by
    rw [writeText, List.append_assoc, List.append_assoc]
    rfl
  rw [writeAt, htext, readValue, if_pos rfl, readString_flatMap]
  rfl

/-- Parts with a comma and a line break between neighbours. -/
def joinLines (style : Style) (level : Nat) (parts : List Text) : Text :=
  Text.join ("," ++ style.lineBreak level) parts

theorem joinLines_cons_append (level : Nat) (part next : Text) (others : List Text)
    (more : Text) : joinLines style level (part :: next :: others) ++ more =
      part ++ CodePoint.ofChar ',' :: (style.lineBreak level ++
        (joinLines style level (next :: others) ++ more)) := by
  rw [joinLines, Text.join, List.append_assoc, List.append_assoc]
  rfl

theorem length_joinLines_cons (level : Nat) (part next : Text) (others : List Text) :
    part.length + 1 + (joinLines style level (next :: others)).length ≤
      (joinLines style level (part :: next :: others)).length := by
  have hlength := congrArg List.length (joinLines_cons_append style level part next
    others [])
  simp only [List.append_nil, List.length_append, List.length_cons] at hlength
  omega

/-- A joined text starts like its first part. -/
theorem exists_joinLines_eq_cons (level : Nat) {part : Text} {c : CodePoint} {tail : Text}
    (h : part = c :: tail) (others : List Text) (more : Text) :
    ∃ rest, joinLines style level (part :: others) ++ more = c :: rest := by
  cases others with
  | nil =>
    rw [h]
    exact ⟨_, rfl⟩
  | cons next others =>
    rw [joinLines_cons_append, h]
    exact ⟨_, rfl⟩

theorem skipBlanks_joinLines (level : Nat) {part : Text} {c : CodePoint} {tail : Text}
    (h : part = c :: tail) (hc : isTokenBlank c = false) (others : List Text) (more : Text) :
    skipBlanks (style.lineBreak level ++ (joinLines style level (part :: others) ++ more)) =
      joinLines style level (part :: others) ++ more := by
  obtain ⟨rest, heq⟩ := exists_joinLines_eq_cons style level h others more
  rw [heq]
  exact skipBlanks_lineBreak style level (Text.notAhead_cons.mpr hc)

theorem skipBlanks_comma (more : Text) :
    skipBlanks (CodePoint.ofChar ',' :: more) = CodePoint.ofChar ',' :: more :=
  skipBlanks_eq_self rfl

/-- The text of items is read up to the bracket after it. -/
theorem readItems_joinLines (level close depth : Nat) {items : List Json} (hne : items ≠ [])
    (hplain : ∀ item ∈ items, item.Plain limit) (hreads : ∀ item ∈ items, Reads limit style item)
    (rest : Text) (hdepth : 2 * (joinLines style level
      (items.map (writeAt style level))).length + 1 ≤ depth + 2) :
    readItems limit (depth + 2) (joinLines style level (items.map (writeAt style level)) ++
      (style.lineBreak close ++ CodePoint.ofChar ']' :: rest)) =
      .ok (items.map sorted, rest) := by
  induction items generalizing depth with
  | nil => exact absurd rfl hne
  | cons item items ih =>
    have hitem := hreads item List.mem_cons_self
    cases items with
    | nil =>
      have hclose : NotAhead isNumberPart (CodePoint.ofChar ']' :: rest) := rfl
      have hblank : NotAhead isTokenBlank (CodePoint.ofChar ']' :: rest) := rfl
      rw [List.map_cons, List.map_nil, joinLines, Text.join] at hdepth ⊢
      rw [readItems, hitem level depth _ (by omega) (notAhead_lineBreak style close hclose)]
      simp only [ok_bind, skipBlanks_lineBreak style close hblank, if_true, pure_eq_ok,
        List.map_cons, List.map_nil]
    | cons next others =>
      rw [List.forall_mem_cons] at hplain hreads
      obtain ⟨c, tail, hhead, -⟩ := exists_writeAt_eq_cons style hplain.1 level
      have hlength : 0 < (writeAt style level item).length := by
        rw [hhead]
        exact Nat.zero_lt_succ _
      have hparts := length_joinLines_cons style level (writeAt style level item)
        (writeAt style level next) (others.map (writeAt style level))
      rw [List.map_cons, List.map_cons] at hdepth ih ⊢
      obtain ⟨depth, rfl⟩ : ∃ d, depth = d + 1 := Nat.exists_eq_add_one.mpr (by omega)
      have hnext := ih depth (List.cons_ne_nil _ _) hplain.2 hreads.2 (by omega)
      obtain ⟨d, digits, hstart, -, hblank, -⟩ :=
        exists_writeAt_eq_cons style (hplain.2 next List.mem_cons_self) level
      have hbracket : CodePoint.ofChar ',' ≠ CodePoint.ofChar ']' := by decide
      rw [joinLines_cons_append, readItems,
        hitem level (depth + 1) _ (by omega) (Text.notAhead_cons.mpr rfl)]
      simp only [ok_bind, skipBlanks_comma, hbracket, if_true, if_false,
        skipBlanks_joinLines style level hstart hblank, hnext, pure_eq_ok, List.map_cons]

def fieldText (style : Style) (level : Nat) (field : Text × Json) : Text :=
  writeText field.1 ++ style.colon ++ writeAt style level field.2

theorem fieldText_append (level : Nat) (field : Text × Json) (more : Text) :
    fieldText style level field ++ more = CodePoint.ofChar '"' ::
      (field.1.flatMap escapeOne ++ CodePoint.ofChar '"' ::
        (style.colon ++ (writeAt style level field.2 ++ more))) := by
  rw [fieldText, writeText]
  simp only [List.append_assoc]
  rfl

/-- After a key comes the colon, and the value after at most one blank. -/
theorem exists_colon {t : Text} (h : NotAhead isTokenBlank t) :
    ∃ more, skipBlanks (style.colon ++ t) = CodePoint.ofChar ':' :: more ∧
      skipBlanks more = t := by
  cases style with
  | compact => exact ⟨t, skipBlanks_eq_self rfl, skipBlanks_eq_self h⟩
  | indented width =>
    have hblank : ∀ c ∈ [CodePoint.ofChar ' '], isTokenBlank c = true := by decide
    exact ⟨CodePoint.ofChar ' ' :: t, skipBlanks_eq_self rfl, Text.dropWhile_run hblank h⟩

/-- The first field is read up to what follows its value. -/
theorem readFields_fieldText (level depth : Nat) {field : Text × Json} {more : Text}
    (hplain : field.2.Plain limit) (hreads : Reads limit style field.2)
    (hmore : NotAhead isNumberPart more)
    (hdepth : 2 * (writeAt style level field.2).length ≤ depth + 1) :
    (∀ left, skipBlanks more = CodePoint.ofNat 0x7D :: left →
      readFields limit (depth + 2) (fieldText style level field ++ more) =
        .ok ([(field.1, field.2.sorted)], left)) ∧
    ∀ next fields left, skipBlanks more = CodePoint.ofChar ',' :: next →
      readFields limit (depth + 1) (skipBlanks next) = .ok (fields, left) →
      readFields limit (depth + 2) (fieldText style level field ++ more) =
        .ok ((field.1, field.2.sorted) :: fields, left) := by
  obtain ⟨value, hcolon, hvalue⟩ := exists_colon style (notAhead_writeAt style hplain level more)
  have hread := hreads level depth more hdepth hmore
  have hbrace : (CodePoint.ofChar ',').val ≠ 0x7D := by decide
  rw [fieldText_append, readFields]
  constructor
  · intro left hclose
    simp only [ne_eq, not_true_eq_false, if_false, readString_flatMap, ok_bind, hcolon, hvalue,
      hread, hclose, CodePoint.val_ofNat (show 0x7D < 0x110000 by decide), if_true, pure_eq_ok]
  · intro next fields left hcomma hfields
    simp only [ne_eq, not_true_eq_false, if_false, readString_flatMap, ok_bind, hcolon, hvalue,
      hread, hcomma, hbrace, hfields, if_true, pure_eq_ok]

/-- The text of fields is read up to the brace after it. -/
theorem readFields_joinLines (level close depth : Nat) {fields : List (Text × Json)}
    (hne : fields ≠ []) (hplain : ∀ field ∈ fields, field.2.Plain limit)
    (hreads : ∀ field ∈ fields, Reads limit style field.2)
    (rest : Text) (hdepth : 2 * (joinLines style level
      (fields.map (fieldText style level))).length + 1 ≤ depth + 2) :
    readFields limit (depth + 2) (joinLines style level (fields.map (fieldText style level)) ++
      (style.lineBreak close ++ CodePoint.ofNat 0x7D :: rest)) =
      .ok (fields.map fun field => (field.1, field.2.sorted), rest) := by
  induction fields generalizing depth with
  | nil => exact absurd rfl hne
  | cons field fields ih =>
    have hvalue := congrArg List.length (fieldText_append style level field [])
    simp only [List.append_nil, List.length_append, List.length_cons] at hvalue
    cases fields with
    | nil =>
      rw [List.map_cons, List.map_nil, joinLines, Text.join] at hdepth ⊢
      have hclose : NotAhead isNumberPart (CodePoint.ofNat 0x7D :: rest) := rfl
      have hfield := readFields_fieldText style level depth (hplain field List.mem_cons_self)
        (hreads field List.mem_cons_self) (notAhead_lineBreak style close hclose) (by omega)
      exact hfield.1 rest (skipBlanks_lineBreak style close rfl)
    | cons next others =>
      rw [List.forall_mem_cons] at hplain hreads
      have hparts := length_joinLines_cons style level (fieldText style level field)
        (fieldText style level next) (others.map (fieldText style level))
      rw [List.map_cons, List.map_cons] at hdepth ih ⊢
      obtain ⟨depth, rfl⟩ : ∃ d, depth = d + 1 := Nat.exists_eq_add_one.mpr (by omega)
      have hnext := ih depth (List.cons_ne_nil _ _) hplain.2 hreads.2 (by omega)
      have hstart := fieldText_append style level next []
      rw [List.append_nil] at hstart
      have hcomma : ∀ more, NotAhead isNumberPart (CodePoint.ofChar ',' :: more) := fun _ => rfl
      have hfield := readFields_fieldText style level (depth + 1) hplain.1 hreads.1
        (hcomma (style.lineBreak level ++ (joinLines style level
          (fieldText style level next :: others.map (fieldText style level)) ++
            (style.lineBreak close ++ CodePoint.ofNat 0x7D :: rest)))) (by omega)
      rw [joinLines_cons_append]
      apply hfield.2 _ _ rest (skipBlanks_comma _)
      rw [skipBlanks_joinLines style level hstart rfl]
      exact hnext

theorem enclose_append (level : Nat) (opening closing : CodePoint) {parts : List Text}
    (hne : parts ≠ []) (rest : Text) :
    enclose style level [opening] [closing] parts ++ rest =
      opening :: (style.lineBreak (level + 1) ++ (joinLines style (level + 1) parts ++
        (style.lineBreak level ++ closing :: rest))) := by
  have hsome : ¬ parts.isEmpty = true := by rwa [List.isEmpty_iff]
  rw [enclose, if_neg hsome, joinLines]
  simp only [List.append_assoc, List.cons_append, List.nil_append]

theorem length_enclose (level : Nat) (opening closing : CodePoint) {parts : List Text}
    (hne : parts ≠ []) : (joinLines style (level + 1) parts).length + 2 ≤
      (enclose style level [opening] [closing] parts).length := by
  have hlength := congrArg List.length
    (enclose_append style level opening closing hne [])
  simp only [List.append_nil, List.length_append, List.length_cons] at hlength
  omega

theorem reads_arr {items : List Json} (hplain : ∀ item ∈ items, item.Plain limit)
    (hreads : ∀ item ∈ items, Reads limit style item) : Reads limit style (arr items) := by
  intro level depth rest hdepth _
  rw [writeAt, writeItems_eq_map] at hdepth ⊢
  rw [sorted_arr]
  cases items with
  | nil => rfl
  | cons first others =>
    have hne : (first :: others).map (writeAt style (level + 1)) ≠ [] := by simp
    have hlength := length_enclose style level (CodePoint.ofChar '[')
      (CodePoint.ofChar ']') hne
    have hdepth := Nat.le_trans (Nat.mul_le_mul_left 2 hlength) hdepth
    obtain ⟨depth, rfl⟩ : ∃ d, depth = d + 2 := ⟨depth - 2, by omega⟩
    have hitems := readItems_joinLines style (level + 1) level depth (List.cons_ne_nil _ _) hplain
      hreads rest (by omega)
    obtain ⟨c, tail, hhead, -, hblank, hbracket⟩ :=
      exists_writeAt_eq_cons style (hplain first List.mem_cons_self) (level + 1)
    obtain ⟨more, hmore⟩ := exists_joinLines_eq_cons style (level + 1) hhead
      (others.map (writeAt style (level + 1)))
      (style.lineBreak level ++ CodePoint.ofChar ']' :: rest)
    have hskip := skipBlanks_lineBreak style (level + 1)
      (Text.notAhead_cons.mpr hblank : NotAhead isTokenBlank (c :: more))
    have hquote : CodePoint.ofChar '[' ≠ CodePoint.ofChar '"' := by decide
    have htext : enclose style level "[" "]" ((first :: others).map (writeAt style (level + 1))) ++
        rest = CodePoint.ofChar '[' :: (style.lineBreak (level + 1) ++ (c :: more)) := by
      rw [← hmore, ← List.map_cons]
      exact enclose_append style level _ _ hne rest
    rw [List.map_cons, hmore] at hitems
    rw [htext]
    simp only [readValue, hquote, hskip, hbracket, if_true, if_false, hitems, ok_bind, pure_eq_ok]

theorem reads_obj {fields : List (Text × Json)} (hdistinct : (fields.map Prod.fst).Nodup)
    (hplain : ∀ field ∈ fields, field.2.Plain limit)
    (hreads : ∀ field ∈ fields, Reads limit style field.2) : Reads limit style (obj fields) := by
  intro level depth rest hdepth _
  have hperm := Text.perm_sortByKey Prod.fst fields
  have hparts : (Text.sortByKey Prod.fst (writeFields style (level + 1) fields)).map (fun part =>
      writeText part.1 ++ style.colon ++ part.2) =
      (Text.sortByKey Prod.fst fields).map (fieldText style (level + 1)) := by
    have hsort : Text.sortByKey Prod.fst (writeFields style (level + 1) fields) =
        (Text.sortByKey Prod.fst fields).map fun f => (f.1, writeAt style (level + 1) f.2) := by
      rw [writeFields_eq_map]
      exact Text.sortByKey_map (fun _ => rfl) fields
    rw [hsort, List.map_map]
    rfl
  rw [writeAt, hparts] at hdepth ⊢
  rw [sorted_obj]
  have hdistinct' := (hperm.map Prod.fst).nodup_iff.mpr hdistinct
  replace hplain : ∀ field ∈ Text.sortByKey Prod.fst fields, field.2.Plain limit :=
    fun field hfield => hplain field (hperm.mem_iff.mp hfield)
  replace hreads : ∀ field ∈ Text.sortByKey Prod.fst fields, Reads limit style field.2 :=
    fun field hfield => hreads field (hperm.mem_iff.mp hfield)
  generalize Text.sortByKey Prod.fst fields = inOrder at *
  cases inOrder with
  | nil => rfl
  | cons first others =>
    have hne : (first :: others).map (fieldText style (level + 1)) ≠ [] := by simp
    have hlength := length_enclose style level (CodePoint.ofNat 0x7B)
      (CodePoint.ofNat 0x7D) hne
    have hdepth := Nat.le_trans (Nat.mul_le_mul_left 2 hlength) hdepth
    obtain ⟨depth, rfl⟩ : ∃ d, depth = d + 2 := ⟨depth - 2, by omega⟩
    have hfields := readFields_joinLines style (level + 1) level depth (List.cons_ne_nil _ _)
      hplain hreads rest (by omega)
    have hhead := fieldText_append style (level + 1) first []
    rw [List.append_nil] at hhead
    obtain ⟨more, hmore⟩ := exists_joinLines_eq_cons style (level + 1) hhead
      (others.map (fieldText style (level + 1)))
      (style.lineBreak level ++ CodePoint.ofNat 0x7D :: rest)
    have hskip := skipBlanks_lineBreak style (level + 1)
      (Text.notAhead_cons.mpr rfl : NotAhead isTokenBlank (CodePoint.ofChar '"' :: more))
    have hall : putAll [] ((first :: others).map fun field => (field.1, field.2.sorted)) =
        (first :: others).map fun field => (field.1, field.2.sorted) := by
      apply putAll_of_nodup
      rw [List.nil_append, List.map_map]
      exact hdistinct'
    have hquote : CodePoint.ofNat 0x7B ≠ CodePoint.ofChar '"' := by decide
    have hbracket : CodePoint.ofNat 0x7B ≠ CodePoint.ofChar '[' := by decide
    have hbrace : (CodePoint.ofNat 0x7B).val = 0x7B := rfl
    have hclose : (CodePoint.ofChar '"').val ≠ 0x7D := by decide
    have htext : enclose style level "\x7b" "\x7d"
        ((first :: others).map (fieldText style (level + 1))) ++ rest =
        CodePoint.ofNat 0x7B ::
          (style.lineBreak (level + 1) ++ (CodePoint.ofChar '"' :: more)) := by
      rw [← hmore, ← List.map_cons]
      exact enclose_append style level _ _ hne rest
    rw [List.map_cons, hmore] at hfields
    rw [htext]
    simp only [readValue, hquote, hbracket, hbrace, hskip, hclose, if_true, if_false, hfields,
      ok_bind, pure_eq_ok, hall]

/-- The text of a plain value is read as the value with its fields sorted. -/
theorem reads_of_plain {json : Json} (h : json.Plain limit) : Reads limit style json := by
  induction json using Json.induct with
  | null => exact reads_null style
  | bool value => exact reads_bool style value
  | int value => exact reads_int style h
  | float value => exact h.elim
  | str value => exact reads_str style value
  | arr items ih =>
    rw [plain_arr] at h
    exact reads_arr style h fun item hitem => ih item hitem (h item hitem)
  | obj fields ih =>
    obtain ⟨hdistinct, hfields⟩ := plain_obj.mp h
    exact reads_obj style hdistinct hfields fun field hfield =>
      ih field hfield (hfields field hfield)

end

/-- In every style, a plain value that is written is read back, with its fields sorted. -/
theorem readAll_write {limit : Option Nat} (style : Style) {json : Json} (h : json.Plain limit) :
    readAll limit (json.write style) = .ok json.sorted := by
  obtain ⟨c, tail, hhead, hascii, hblank, -⟩ := exists_writeAt_eq_cons style h 0
  have hread := reads_of_plain style h 0 (2 * (json.write style).length) []
    (Nat.le_succ _) Text.notAhead_nil
  rw [List.append_nil, ← write] at hread
  have hskip : skipBlanks (json.write style) = json.write style := by
    apply skipBlanks_eq_self
    rw [write, hhead]
    exact Text.notAhead_cons.mpr hblank
  have hmark : ((json.write style).head? == some (CodePoint.ofNat 0xFEFF)) = false := by
    rw [write, hhead, List.head?_cons, beq_eq_false_iff_ne]
    rintro ⟨⟩
    exact absurd hascii (by decide)
  rw [readAll, hmark, hskip, hread]
  rfl

end AbiBindings.Json
