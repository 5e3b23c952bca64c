import Pinpoint.Proofs.Json.Numbers
import Pinpoint.Proofs.Json.Objects
import Pinpoint.Proofs.Json.Quoted

/-!
# What is written can be read

A value that is written over several lines is read again as the same value (`parse_pretty`), if its integers are
short enough to be written and no object in it has two fields of one name (`IsRecoverable`).

What follows a value decides where the reader stops only if the value is a number, so `ReadsBack` asks that it end a
number; a comma, the end of a line and the end of the text do. The fuel that a value takes
is at most its length (`readItems_joined`, `readFields_joined`), and this is what the reader starts with.
-/

namespace Pinpoint.Json

namespace Reader

variable {rest : List Char}

/-! ### Between the parts -/

/-- A value may start here: there is no space and no byte order mark, and no list ends. -/
def StartsValue (cs : List Char) : Prop :=
  ∃ c tail, cs = c :: tail ∧ isSpace c = false ∧ c ≠ ']' ∧ c ≠ '\uFEFF'

theorem skip_cons {c : Char} {cs : List Char} (h : isSpace c = false) : skip (c :: cs) = c :: cs := by
  unfold skip
  rw [List.dropWhile_cons, h]
  rfl

theorem StartsValue.skip_eq {cs : List Char} (h : StartsValue cs) : skip cs = cs := by
  obtain ⟨c, tail, rfl, hspace, -⟩ := h
  exact skip_cons hspace

/-- A line end and the spaces behind it are skipped. -/
theorem skip_newline (level : Nat) (cs : List Char) : skip ((Writer.newline level).toList ++ cs) = skip cs := by
  have hspaces : ∀ c ∈ (Writer.newline level).toList, isSpace c = true := by
    rw [Writer.newline, String.toList_ofList]
    intro c hc
    rcases List.mem_cons.mp hc with rfl | hc
    · rfl
    · rw [List.eq_of_mem_replicate hc]
      rfl
  exact List.dropWhile_append_of_pos hspaces

section Parts

variable {fuel level : Nat} {cs more : List Char} {item value : Json} {name : String}

/-- The last item of a list is the one with the closing bracket behind it. -/
theorem readItems_last {done : List Json}
    (h : readValue fuel cs = .ok (item, (Writer.newline level).toList ++ ']' :: rest)) :
    readItems (fuel + 1) done cs = .ok (.arr (item :: done).reverse, rest) := by
  rw [readItems, h]
  dsimp only
  rw [skip_newline, skip_cons (by decide)]
  rfl

/-- Behind a comma comes the next item. -/
theorem readItems_comma {done : List Json}
    (h : readValue fuel cs = .ok (item, ',' :: ((Writer.newline level).toList ++ more)))
    (hmore : StartsValue more) : readItems (fuel + 1) done cs = readItems fuel (item :: done) more := by
  rw [readItems, h]
  dsimp only
  rw [skip_cons (by decide)]
  show readItems fuel (item :: done) (skip ((Writer.newline level).toList ++ more)) = _
  rw [skip_newline, hmore.skip_eq]

/-- The name of a field is read, and then the value behind the colon. -/
theorem readFields_succ {done : Fields} (hcs : StartsValue cs) :
    readFields (fuel + 1) done ('"' :: (name.toList.flatMap Writer.escapeChar ++ '"' :: ':' :: ' ' :: cs))
      = match readValue fuel cs with
        | .error e => .error e
        | .ok (value, rest) => match skip rest with
          | '\x7d' :: rest' => .ok (.obj (Fields.ofPairs ((name, value) :: done).reverse), rest')
          | ',' :: rest' => readFields fuel ((name, value) :: done) (skip rest')
          | rest' => .error (.at .expectingComma rest') := by
  have hspace : skip (' ' :: cs) = cs := hcs.skip_eq
  have hbehind : readValue fuel cs = readValue fuel (skip (' ' :: cs)) := by rw [hspace]
  rw [hbehind, readFields, readText_text]
  dsimp only
  rw [skip_cons (by decide)]
  rfl

/-- The last field of an object is the one with the closing brace behind it. -/
theorem readFields_last {done : Fields}
    (h : readValue fuel cs = .ok (value, (Writer.newline level).toList ++ '\x7d' :: rest))
    (hcs : StartsValue cs) :
    readFields (fuel + 1) done ('"' :: (name.toList.flatMap Writer.escapeChar ++ '"' :: ':' :: ' ' :: cs))
      = .ok (.obj (Fields.ofPairs ((name, value) :: done).reverse), rest) := by
  rw [readFields_succ hcs, h]
  dsimp only
  rw [skip_newline, skip_cons (by decide)]
  rfl

/-- Behind a comma comes the next field. -/
theorem readFields_comma {done : Fields}
    (h : readValue fuel cs = .ok (value, ',' :: ((Writer.newline level).toList ++ more)))
    (hcs : StartsValue cs) (hmore : StartsValue more) :
    readFields (fuel + 1) done ('"' :: (name.toList.flatMap Writer.escapeChar ++ '"' :: ':' :: ' ' :: cs))
      = readFields fuel ((name, value) :: done) more := by
  rw [readFields_succ hcs, h]
  dsimp only
  rw [skip_cons (by decide)]
  show readFields fuel ((name, value) :: done) (skip ((Writer.newline level).toList ++ more)) = _
  rw [skip_newline, hmore.skip_eq]

end Parts

/-! ### How values are written -/

/-- Parts on lines of their own, with a comma between one and the next. -/
def joined (level : Nat) (parts : List String) : List Char :=
  List.intercalate (',' :: (Writer.newline level).toList) (parts.map String.toList)

theorem joined_singleton (level : Nat) (part : String) : joined level [part] = part.toList :=
  List.intercalate_singleton

theorem joined_cons (level : Nat) (part : String) {parts : List String} (h : parts ≠ []) :
    joined level (part :: parts)
      = part.toList ++ (',' :: ((Writer.newline level).toList ++ joined level parts)) := by
  have hne : parts.map String.toList ≠ [] := fun hnil => h (List.map_eq_nil_iff.mp hnil)
  rw [joined, List.map_cons, List.intercalate_cons_of_ne_nil hne, List.append_assoc, List.cons_append]
  rfl

theorem bracketed_nil (level : Nat) (opening closing : String) :
    Writer.bracketed level opening closing [] = opening ++ closing := if_pos rfl

/-- What stands between brackets. -/
theorem toList_bracketed (level : Nat) (opening closing part : String) (parts : List String) :
    (Writer.bracketed level opening closing (part :: parts)).toList
      = opening.toList ++ ((Writer.newline (level + 1)).toList ++ (joined (level + 1) (part :: parts)
        ++ ((Writer.newline level).toList ++ closing.toList))) := by
  rw [Writer.bracketed, if_neg (by simp)]
  simp only [String.toList_append, String.toList_intercalate, List.append_assoc, joined]
  rfl

/-- How a field is written. -/
theorem toList_field (level : Nat) (name : String) (value : Json) :
    (Writer.text name ++ ": " ++ prettyAt level value).toList
      = '"' :: (name.toList.flatMap Writer.escapeChar
        ++ '"' :: ':' :: ' ' :: (prettyAt level value).toList) := by
  simp only [Writer.text, String.toList_append, String.toList_ofList, List.append_assoc, List.cons_append]
  rfl

section Written

variable {level : Nat}

theorem toList_null : (prettyAt level .null).toList = ['n', 'u', 'l', 'l'] := by
  change "null".toList = _
  rfl

theorem toList_true : (prettyAt level (.bool true)).toList = ['t', 'r', 'u', 'e'] := by
  change "true".toList = _
  rfl

theorem toList_false : (prettyAt level (.bool false)).toList = ['f', 'a', 'l', 's', 'e'] := by
  change "false".toList = _
  rfl

theorem toList_int (n : Int) : (prettyAt level (.int n)).toList = Text.decimal n := by
  rfl

theorem toList_float (x : Double) : (prettyAt level (.float x)).toList = (Writer.number x).toList := by
  rfl

theorem toList_nan : (prettyAt level (.float .nan)).toList = ['N', 'a', 'N'] := by
  change "NaN".toList = _
  rfl

theorem toList_str (s : String) :
    (prettyAt level (.str s)).toList = '"' :: (s.toList.flatMap Writer.escapeChar ++ ['"']) := by
  change (Writer.text s).toList = _
  rw [Writer.text, String.toList_ofList]
  rfl

theorem toList_arr_nil : (prettyAt level (.arr [])).toList = ['[', ']'] := by
  change (Writer.bracketed level "[" "]" []).toList = _
  rw [bracketed_nil]
  rfl

theorem toList_arr_cons (item : Json) (rest : List Json) :
    (prettyAt level (.arr (item :: rest))).toList
      = '[' :: ((Writer.newline (level + 1)).toList
        ++ (joined (level + 1) (prettyItems (level + 1) (item :: rest))
          ++ ((Writer.newline level).toList ++ [']']))) := by
  exact toList_bracketed level "[" "]" _ _

theorem toList_obj_nil : (prettyAt level (.obj [])).toList = ['\x7b', '\x7d'] := by
  change (Writer.bracketed level "\x7b" "\x7d" []).toList = _
  rw [bracketed_nil]
  rfl

theorem toList_obj_cons (field : String × Json) (rest : Fields) :
    (prettyAt level (.obj (field :: rest))).toList
      = '\x7b' :: ((Writer.newline (level + 1)).toList
        ++ (joined (level + 1) (prettyFields (level + 1) (field :: rest))
          ++ ((Writer.newline level).toList ++ ['\x7d']))) := by
  exact toList_bracketed level "\x7b" "\x7d" _ _

end Written

/-- A number starts here: with a sign, with a digit, or with the name of infinity. -/
def StartsNumber (cs : List Char) : Prop :=
  ∃ c tail, cs = c :: tail ∧ (c = '-' ∨ c = 'I' ∨ c.isDigit = true)

theorem StartsNumber.append {cs : List Char} (h : StartsNumber cs) (tail : List Char) :
    StartsNumber (cs ++ tail) := by
  obtain ⟨c, more, rfl, hc⟩ := h
  exact ⟨c, more ++ tail, rfl, hc⟩

/-- The first character of a number is no other one. -/
theorem ne_of_startsNumber {c d : Char} (hc : c = '-' ∨ c = 'I' ∨ c.isDigit = true)
    (hd : d ≠ '-' ∧ d ≠ 'I' ∧ d.isDigit = false) : c ≠ d := by
  rintro rfl
  obtain ⟨hminus, hname, hdigit⟩ := hd
  rcases hc with hc | hc | hc
  · exact hminus hc
  · exact hname hc
  · rw [hdigit] at hc
    cases hc

theorem StartsNumber.startsValue {cs : List Char} (h : StartsNumber cs) : StartsValue cs := by
  obtain ⟨c, tail, rfl, hc⟩ := h
  refine ⟨c, tail, rfl, ?_, ne_of_startsNumber hc (by decide), ne_of_startsNumber hc (by decide)⟩
  simp only [isSpace, Bool.or_eq_false_iff, beq_eq_false_iff_ne]
  exact ⟨⟨⟨ne_of_startsNumber hc (by decide), ne_of_startsNumber hc (by decide)⟩,
    ne_of_startsNumber hc (by decide)⟩, ne_of_startsNumber hc (by decide)⟩

theorem startsNumber_decimal (n : Int) : StartsNumber (Text.decimal n) := by
  obtain ⟨c, more, hdecimal⟩ := List.exists_cons_of_ne_nil (Text.numeral_decimal n).ne_nil
  have hc := (Text.numeral_decimal n).eq_or_isDigit_of_mem (hdecimal ▸ List.mem_cons_self)
  exact ⟨c, more, hdecimal, hc.imp_right .inr⟩

/-- **A value starts** with none of the characters that may stand before it, or that end a list. -/
theorem startsValue_prettyAt (level : Nat) (j : Json) (tail : List Char) :
    StartsValue ((prettyAt level j).toList ++ tail) := by
  cases j with
  | null =>
    rw [toList_null]
    exact ⟨'n', _, rfl, by decide⟩
  | bool b =>
    cases b with
    | true =>
      rw [toList_true]
      exact ⟨'t', _, rfl, by decide⟩
    | false =>
      rw [toList_false]
      exact ⟨'f', _, rfl, by decide⟩
  | int n =>
    rw [toList_int]
    exact ((startsNumber_decimal n).append tail).startsValue
  | float x =>
    cases x with
    | nan =>
      rw [toList_nan]
      exact ⟨'N', _, rfl, by decide⟩
    | ranked negative rank =>
      have hstart : StartsNumber (Writer.number (.ranked negative rank)).toList := exists_number_eq_cons negative rank
      rw [toList_float]
      exact (hstart.append tail).startsValue
  | str s =>
    rw [toList_str]
    exact ⟨'"', _, rfl, by decide⟩
  | arr items =>
    cases items with
    | nil =>
      rw [toList_arr_nil]
      exact ⟨'[', _, rfl, by decide⟩
    | cons item rest =>
      rw [toList_arr_cons]
      exact ⟨'[', _, rfl, by decide⟩
  | obj fields =>
    cases fields with
    | nil =>
      rw [toList_obj_nil]
      exact ⟨'\x7b', _, rfl, by decide⟩
    | cons field rest =>
      rw [toList_obj_cons]
      exact ⟨'\x7b', _, rfl, by decide⟩

/-! ### Values -/

/-- What starts as a number is read as one. -/
theorem readValue_number {cs : List Char} (h : StartsNumber cs) (fuel : Nat) :
    readValue (fuel + 1) cs = readNumber cs := by
  obtain ⟨c, tail, rfl, hc⟩ := h
  rw [readValue]
  all_goals
    intro _ heq
    exact absurd (List.cons.inj heq).1 (ne_of_startsNumber hc (by decide))

theorem endsNumber_newline (level : Nat) (cs : List Char) :
    EndsNumber ((Writer.newline level).toList ++ cs) := by
  rw [Writer.newline, String.toList_ofList]
  intro c hc
  obtain rfl := Option.some.inj hc
  decide

theorem endsNumber_comma (cs : List Char) : EndsNumber (',' :: cs) := by
  intro c hc
  obtain rfl := Option.some.inj hc
  decide

/-- What is written has at least one character. -/
theorem exists_fuel {level fuel : Nat} {j : Json} (h : (prettyAt level j).toList.length ≤ fuel) :
    ∃ m, fuel = m + 1 := by
  obtain ⟨c, tail, hwritten, -⟩ := startsValue_prettyAt level j []
  rw [List.append_nil] at hwritten
  rw [hwritten, List.length_cons] at h
  exact ⟨fuel - 1, by omega⟩

/-- A list is read item by item. -/
theorem readValue_arr (fuel level : Nat) {cs : List Char} (h : StartsValue cs) :
    readValue (fuel + 1) ('[' :: ((Writer.newline level).toList ++ cs)) = readItems fuel [] cs := by
  have hskip : skip ((Writer.newline level).toList ++ cs) = cs := (skip_newline level cs).trans h.skip_eq
  obtain ⟨c, tail, rfl, -, hc, -⟩ := h
  rw [readValue, hskip]
  split
  next heq => exact absurd (List.cons.inj heq).1 hc
  next => rfl

/-- An object is read field by field. -/
theorem readValue_obj (fuel level : Nat) {cs : List Char} (h : ∃ tail, cs = '"' :: tail) :
    readValue (fuel + 1) ('\x7b' :: ((Writer.newline level).toList ++ cs)) = readFields fuel [] cs := by
  obtain ⟨tail, rfl⟩ := h
  rw [readValue, skip_newline, skip_cons (by decide)]
  rfl

/-- A value is read as it was written at a level, if there is enough fuel for its length. -/
def ReadsBack (level : Nat) (j : Json) : Prop :=
  ∀ fuel rest, (prettyAt level j).toList.length ≤ fuel → EndsNumber rest →
    readValue fuel ((prettyAt level j).toList ++ rest) = .ok (j, rest)

/-- The items of a list start with a value. -/
theorem startsValue_items (level : Nat) (item : Json) (items : List Json) (tail : List Char) :
    StartsValue (joined level (prettyItems level (item :: items)) ++ tail) := by
  rw [prettyItems]
  cases items with
  | nil =>
    rw [prettyItems, joined_singleton]
    exact startsValue_prettyAt level item tail
  | cons next items =>
    rw [joined_cons level _ (prettyItems_ne_nil level next items), List.append_assoc]
    exact startsValue_prettyAt level item _

/-- **The items of a list are read** up to its end, if each of them is. -/
theorem readItems_joined {level : Nat} (outer : Nat) {items : List Json} (hne : items ≠ [])
    (hall : ∀ item ∈ items, ReadsBack level item) {fuel : Nat} (done : List Json)
    (hfuel : (joined level (prettyItems level items)).length < fuel) :
    readItems fuel done
        (joined level (prettyItems level items) ++ ((Writer.newline outer).toList ++ ']' :: rest))
      = .ok (.arr (done.reverse ++ items), rest) := by
  -- one unit of fuel for each item: every item has a character, so the rest has less than what is left
  induction items generalizing fuel done with
  | nil => exact absurd rfl hne
  | cons item items ih =>
    obtain ⟨hitem, hall⟩ := List.forall_mem_cons.mp hall
    obtain ⟨fuel, rfl⟩ : ∃ m, fuel = m + 1 := ⟨fuel - 1, by omega⟩
    cases items with
    | nil =>
      rw [prettyItems, prettyItems, joined_singleton] at hfuel ⊢
      rw [readItems_last (hitem fuel _ (by omega) (endsNumber_newline outer _)), List.reverse_cons]
    | cons next items =>
      rw [prettyItems, joined_cons level _ (prettyItems_ne_nil level next items)] at hfuel ⊢
      rw [List.length_append, List.length_cons, List.length_append] at hfuel
      rw [List.append_assoc, List.cons_append, List.append_assoc,
        readItems_comma (hitem fuel _ (by omega) (endsNumber_comma _)) (startsValue_items level next items _),
        ih (List.cons_ne_nil _ _) hall (item :: done) (by omega), List.reverse_cons, List.append_assoc]
      rfl

/-- Fields start with the quote of a name. -/
theorem exists_fields_eq_cons (level : Nat) (field : String × Json) (fields : Fields) (tail : List Char) :
    ∃ cs, joined level (prettyFields level (field :: fields)) ++ tail = '"' :: cs := by
  obtain ⟨name, value⟩ := field
  rw [prettyFields]
  cases fields with
  | nil =>
    rw [prettyFields, joined_singleton, toList_field]
    exact ⟨_, rfl⟩
  | cons next fields =>
    rw [joined_cons level _ (prettyFields_ne_nil level next fields), toList_field]
    exact ⟨_, rfl⟩

theorem startsValue_fields (level : Nat) (field : String × Json) (fields : Fields) (tail : List Char) :
    StartsValue (joined level (prettyFields level (field :: fields)) ++ tail) := by
  obtain ⟨cs, hcs⟩ := exists_fields_eq_cons level field fields tail
  rw [hcs]
  exact ⟨'"', cs, rfl, by decide⟩

/-- **The fields of an object are read** up to its end, if each of their values is. -/
theorem readFields_joined {level : Nat} (outer : Nat) {fields : Fields} (hne : fields ≠ [])
    (hall : ∀ f ∈ fields, ReadsBack level f.2) {fuel : Nat} (done : Fields)
    (hfuel : (joined level (prettyFields level fields)).length < fuel) :
    readFields fuel done
        (joined level (prettyFields level fields) ++ ((Writer.newline outer).toList ++ '\x7d' :: rest))
      = .ok (.obj (Fields.ofPairs (done.reverse ++ fields)), rest) := by
  induction fields generalizing fuel done with
  | nil => exact absurd rfl hne
  | cons field fields ih =>
    obtain ⟨name, value⟩ := field
    obtain ⟨hfield, hall⟩ := List.forall_mem_cons.mp hall
    have hvalue : ReadsBack level value := hfield
    obtain ⟨fuel, rfl⟩ : ∃ m, fuel = m + 1 := ⟨fuel - 1, by omega⟩
    cases fields with
    | nil =>
      rw [prettyFields, prettyFields, joined_singleton, toList_field] at hfuel ⊢
      simp only [List.length_cons, List.length_append] at hfuel
      simp only [List.cons_append, List.append_assoc]
      rw [readFields_last (hvalue fuel _ (by omega) (endsNumber_newline outer _))
        (startsValue_prettyAt level value _), List.reverse_cons]
    | cons next fields =>
      rw [prettyFields, joined_cons level _ (prettyFields_ne_nil level next fields), toList_field] at hfuel ⊢
      simp only [List.length_cons, List.length_append] at hfuel
      simp only [List.cons_append, List.append_assoc]
      rw [readFields_comma (hvalue fuel _ (by omega) (endsNumber_comma _))
        (startsValue_prettyAt level value _) (startsValue_fields level next fields _),
        ih (List.cons_ne_nil _ _) hall ((name, value) :: done) (by omega), List.reverse_cons,
        List.append_assoc]
      rfl

/-! ### What can be recovered -/

/-- Fields of distinct names, named one after the other, are these fields. -/
theorem ofPairs_of_distinctNames {fields : Fields} (h : DistinctNames fields) :
    Fields.ofPairs fields = fields := by
  induction fields using List.reverseRecOn with
  | nil => rfl
  | append_singleton fields last ih =>
    unfold DistinctNames at h ih
    rw [List.map_append, List.nodup_append] at h
    obtain ⟨hfields, -, hlast⟩ := h
    have hnew : ¬ fields.any (·.1 = last.1) = true := by
      intro hany
      obtain ⟨f, hf, hname⟩ := List.any_eq_true.mp hany
      exact hlast f.1 (List.mem_map_of_mem hf) last.1 (List.mem_singleton_self _) (of_decide_eq_true hname)
    have hset : Fields.ofPairs (fields ++ [last]) = Fields.set (Fields.ofPairs fields) last.1 last.2 :=
      List.foldl_append ..
    rw [hset, ih hfields, Fields.set, if_neg hnew]

theorem allWritable_iff {items : List Json} :
    allWritable items = true ↔ ∀ item ∈ items, item.isWritable = true := by
  induction items with
  | nil => exact iff_of_true rfl fun item hitem => absurd hitem List.not_mem_nil
  | cons item items ih => rw [allWritable, Bool.and_eq_true, ih, List.forall_mem_cons]

theorem fieldsWritable_iff {fields : Fields} :
    fieldsWritable fields = true ↔ ∀ f ∈ fields, f.2.isWritable = true := by
  induction fields with
  | nil => exact iff_of_true rfl fun f hf => absurd hf List.not_mem_nil
  | cons field fields ih => rw [fieldsWritable, Bool.and_eq_true, ih, List.forall_mem_cons]

/-- **A value can be recovered** from what is written for it: its integers can be written, and no object in it
has two fields of one name. -/
structure IsRecoverable (j : Json) : Prop where
  writable : j.isWritable = true
  names : j.Everywhere DistinctNames

theorem IsRecoverable.items {items : List Json} (h : IsRecoverable (.arr items)) {item : Json}
    (hitem : item ∈ items) : IsRecoverable item := by
  have hwritable : allWritable items = true := by
    rw [← h.writable, isWritable]
  exact ⟨allWritable_iff.mp hwritable item hitem, everywhere_arr.mp h.names item hitem⟩

theorem IsRecoverable.fields {fields : Fields} (h : IsRecoverable (.obj fields)) {f : String × Json}
    (hf : f ∈ fields) : IsRecoverable f.2 := by
  have hwritable : fieldsWritable fields = true := by
    rw [← h.writable, isWritable]
  exact ⟨fieldsWritable_iff.mp hwritable f hf, (everywhere_obj.mp h.names).2 f hf⟩

/-! ### Values -/

section Values

variable {level : Nat}

theorem readsBack_null : ReadsBack level .null := by
  intro fuel rest hfuel _
  obtain ⟨fuel, rfl⟩ := exists_fuel hfuel
  rw [toList_null]
  rfl

theorem readsBack_bool (b : Bool) : ReadsBack level (.bool b) := by
  intro fuel rest hfuel _
  obtain ⟨fuel, rfl⟩ := exists_fuel hfuel
  cases b with
  | true =>
    rw [toList_true]
    rfl
  | false =>
    rw [toList_false]
    rfl

theorem readsBack_int {n : Int} (h : Text.tooLong n = false) : ReadsBack level (.int n) := by
  intro fuel rest hfuel hrest
  obtain ⟨fuel, rfl⟩ := exists_fuel hfuel
  rw [toList_int, readValue_number ((startsNumber_decimal n).append rest), readNumber_decimal h hrest]

theorem readsBack_float (x : Double) : ReadsBack level (.float x) := by
  intro fuel rest hfuel hrest
  obtain ⟨fuel, rfl⟩ := exists_fuel hfuel
  cases x with
  | nan =>
    rw [toList_nan]
    rfl
  | ranked negative rank =>
    have hstart : StartsNumber (Writer.number (.ranked negative rank)).toList := exists_number_eq_cons negative rank
    rw [toList_float, readValue_number (hstart.append rest), readNumber_number negative rank hrest]

theorem readsBack_str (s : String) : ReadsBack level (.str s) := by
  intro fuel rest hfuel _
  obtain ⟨fuel, rfl⟩ := exists_fuel hfuel
  rw [toList_str, List.cons_append, List.append_assoc, List.singleton_append, readValue, readText_text]
  rfl

/-- A list is read as it was written, if its items are. -/
theorem readsBack_arr {items : List Json} (hall : ∀ item ∈ items, ReadsBack (level + 1) item) :
    ReadsBack level (.arr items) := by
  intro fuel rest hfuel _
  obtain ⟨fuel, rfl⟩ := exists_fuel hfuel
  cases items with
  | nil =>
    rw [toList_arr_nil]
    rfl
  | cons item items =>
    rw [toList_arr_cons] at hfuel ⊢
    simp only [List.length_cons, List.length_append] at hfuel
    simp only [List.cons_append, List.append_assoc]
    rw [readValue_arr fuel (level + 1) (startsValue_items (level + 1) item items _)]
    exact readItems_joined level (List.cons_ne_nil _ _) hall [] (by omega)

/-- An object is read as it was written, if the values of its fields are and no name is given twice. -/
theorem readsBack_obj {fields : Fields} (hnames : DistinctNames fields)
    (hall : ∀ f ∈ fields, ReadsBack (level + 1) f.2) : ReadsBack level (.obj fields) := by
  intro fuel rest hfuel _
  obtain ⟨fuel, rfl⟩ := exists_fuel hfuel
  cases fields with
  | nil =>
    rw [toList_obj_nil]
    rfl
  | cons field fields =>
    rw [toList_obj_cons] at hfuel ⊢
    simp only [List.length_cons, List.length_append] at hfuel
    simp only [List.cons_append, List.append_assoc]
    rw [readValue_obj fuel (level + 1) (exists_fields_eq_cons (level + 1) field fields _)]
    refine (readFields_joined level (List.cons_ne_nil _ _) hall [] (by omega)).trans ?_
    rw [List.reverse_nil, List.nil_append, ofPairs_of_distinctNames hnames]
    rfl

end Values

end Reader

/-- **Induction on values:** on the items of lists and on the values of fields. -/
theorem inductionOn {motive : Json → Prop} (null : motive .null) (bool : ∀ b, motive (.bool b))
    (int : ∀ n, motive (.int n)) (float : ∀ x, motive (.float x)) (str : ∀ s, motive (.str s))
    (arr : ∀ items, (∀ item ∈ items, motive item) → motive (.arr items))
    (obj : ∀ fields : Fields, (∀ f ∈ fields, motive f.2) → motive (.obj fields)) : ∀ j, motive j
  | .null => null
  | .bool b => bool b
  | .int n => int n
  | .float x => float x
  | .str s => str s
  | .arr items => arr items fun item _ => inductionOn null bool int float str arr obj item
  | .obj fields => obj fields fun f _ => inductionOn null bool int float str arr obj f.2
termination_by j => sizeOf j
decreasing_by
  · rename_i hitem
    have hsmaller := List.sizeOf_lt_of_mem hitem
    rw [Json.arr.sizeOf_spec]
    omega
  · rename_i hf
    have hsmaller := List.sizeOf_lt_of_mem hf
    rw [Json.obj.sizeOf_spec]
    obtain ⟨name, value⟩ := f
    rw [Prod.mk.sizeOf_spec] at hsmaller
    show sizeOf value < _
    omega

open Reader

/-- **A value that can be recovered is read** as it was written. -/
theorem readsBack_of_isRecoverable {j : Json} (h : IsRecoverable j) (level : Nat) : ReadsBack level j := by
  -- the items of a list and the values of fields stand one level deeper
  induction j using inductionOn generalizing level with
  | null => exact readsBack_null
  | bool b => exact readsBack_bool b
  | int n =>
    have hwritable := h.writable
    rw [isWritable, Bool.not_eq_true'] at hwritable
    exact readsBack_int hwritable
  | float x => exact readsBack_float x
  | str s => exact readsBack_str s
  | arr items ih => exact readsBack_arr fun item hitem => ih item hitem (h.items hitem) (level + 1)
  | obj fields ih =>
    exact readsBack_obj (everywhere_obj.mp h.names).1 fun f hf => ih f hf (h.fields hf) (level + 1)

/-- **What is written over several lines is read** as the value that it was written for. -/
theorem parse_pretty {j : Json} (h : IsRecoverable j) : parse (j.pretty ++ "\n").toList = .ok j := by
  have htext : (j.pretty ++ "\n").toList = (prettyAt 0 j).toList ++ ['\n'] := String.toList_append
  have hread :
      readValue ((j.pretty ++ "\n").toList.length + 1) (j.pretty ++ "\n").toList = .ok (j, ['\n']) := by
    rw [htext]
    refine readsBack_of_isRecoverable h 0 _ _ ?_ (endsNumber_newline 0 [])
    rw [List.length_append]
    omega
  -- nothing is skipped at the start, and behind the value only the line end
  have hstart : StartsValue (j.pretty ++ "\n").toList := by
    rw [htext]
    exact startsValue_prettyAt 0 j _
  have hskip := hstart.skip_eq
  obtain ⟨c, tail, hcons, -, -, hmark⟩ := hstart
  have hall : readAll (j.pretty ++ "\n").toList = .ok j := by
    rw [hcons] at hread hskip ⊢
    rw [readAll.eq_def]
    split
    next heq => exact absurd (List.cons.inj heq).1 hmark
    next =>
      rw [hskip, hread]
      rfl
  rw [parse, hall]
  rfl

end Pinpoint.Json
