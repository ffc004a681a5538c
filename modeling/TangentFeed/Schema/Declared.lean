import TangentFeed.Schema.Exact

/-!
# Writes and reads under a schema

A write names a table of the schema, and the columns of the table; a row that was
read is checked against a table. What is declared is accepted, and nothing else,
exactly when no name that every object inherits decides: not as a table or a
column that is not declared, not as a column that is not there, and not in the
values.
-/

namespace TangentFeed.Schema

/-! ## The calls -/

/-- The tables of a schema; the keys of a JavaScript object are distinct. -/
structure SchemaShape where
  entries : List (JsString × TableShape)
  nodup : (entries.map Prod.fst).Nodup

/-- What `schema[table]` is. -/
inductive FoundTable where
  | shape (s : TableShape)
  | inherited

/-- Whether a property of what every object inherits under a name is there and truthy. -/
abbrev Members := JsString → JsString → Bool

/-- `checkColumns` where the shape is what every object inherits: it has no keys, and its
members are no fields. -/
def checkMembers (member : JsString → Bool) (table : JsString) :
    List (JsString × Json) → Out → Except SchemaError Out
  | [], out => .ok out
  | (column, value) :: rest, out =>
    if member column then
      match Found.inherited.check value column with
      | some bad =>
        .error ⟨table, some column, bad.expected, (Seen.json value).describe,
          table ++ js "." ++ bad.path ++ js ": expected " ++ bad.expected.getD (js "undefined") ++
            js ", received " ++ (Seen.json value).describe⟩
      | none => checkMembers member table rest (out.assign column value)
    else
      .error ⟨table, some column, some (oneOf []), column,
        js "unknown column \"" ++ column ++ js "\" on table \"" ++ table ++ js "\""⟩

namespace SchemaShape

def tableShape (schema : SchemaShape) (table : JsString) : Except SchemaError FoundTable :=
  match schema.entries.lookup table with
  | some s => .ok (.shape s)
  | none =>
    if table ∈ objectPrototypeNames then .ok .inherited
    else
      .error ⟨table, none, some (oneOf (schema.entries.map Prod.fst)), table,
        js "unknown table \"" ++ table ++ js "\""⟩

def validateInsert (members : Members) (schema : SchemaShape) (table : JsString)
    (values : Record) : Except SchemaError Out :=
  match schema.tableShape table with
  | .error err => .error err
  | .ok (.shape s) => Schema.validateInsert s table values
  | .ok .inherited => checkMembers (members table) table values.entries .empty

def validateUpdate (members : Members) (schema : SchemaShape) (table : JsString)
    (values : Record) : Except SchemaError Out :=
  match schema.tableShape table with
  | .error err => .error err
  | .ok (.shape s) => Schema.validateUpdate s table values
  | .ok .inherited =>
    if values.entries.isEmpty then
      .error ⟨table, none, some (js "at least one column"), js "\x7b\x7d",
        js "no columns to update on table \"" ++ table ++ js "\""⟩
    else checkMembers (members table) table values.entries .empty

end SchemaShape

/-! ## What is declared -/

/-- Every supplied column is declared, and its value conforms. -/
def ColumnsConform (shape : TableShape) (values : Record) : Prop :=
  ∀ p ∈ values.entries, ∃ f, shape.entries.lookup p.1 = some f ∧ Conforms [] f p.2

/-- A record that may be inserted. -/
def InsertConforms (schema : SchemaShape) (table : JsString) (values : Record) : Prop :=
  ∃ shape, schema.entries.lookup table = some shape ∧ ColumnsConform shape values ∧
    ∀ p ∈ shape.entries, values.entries.lookup p.1 = none →
      p.2.isOptional = true ∨ p.2.defaultValue ≠ none

/-- A record that may be written to a row. -/
def UpdateConforms (schema : SchemaShape) (table : JsString) (values : Record) : Prop :=
  ∃ shape, schema.entries.lookup table = some shape ∧ values.entries ≠ [] ∧
    ColumnsConform shape values

/-- What an insert is to write: the supplied values, and the defaults of the others. -/
def inserted (shape : TableShape) (values : Record) (c : JsString) : Option Json :=
  (values.entries.lookup c).or ((shape.entries.lookup c).bind Field.defaultValue)

/-- A column of a row, where the names in `inherited` are always found. -/
def ColumnConforms (inherited : List JsString) (fs : List (JsString × Json))
    (p : JsString × Field) : Prop :=
  match fs.lookup p.1 with
  | some v => Conforms inherited p.2 v
  | none => AbsentOk inherited p.1 p.2

/-- A row of the table: an object whose keys are `id` and columns, and whose columns conform. -/
def RowConforms (shape : TableShape) (row : Json) : Prop :=
  ∃ fs, row = .obj fs ∧ (∀ p ∈ fs, p.1 = js "id" ∨ p.1 ∈ shape.entries.map Prod.fst) ∧
    ∀ p ∈ shape.entries, ColumnConforms [] fs p

/-- The path is in the column. -/
def Within (column path : JsString) : Prop :=
  path = column ∨ ∃ rest, path = column ++ js "." ++ rest ∨ path = column ++ js "[" ++ rest

/-! ## Exact checks -/

/-- An insert succeeds for what is declared, with the supplied values and the defaults. -/
structure InsertExact (members : Members) (schema : SchemaShape) (table : JsString)
    (values : Record) : Prop where
  succeeds : (∃ out, schema.validateInsert members table values = .ok out) ↔
    InsertConforms schema table values
  result : ∀ shape out, schema.entries.lookup table = some shape →
    schema.validateInsert members table values = .ok out →
      ∀ c, out.own.lookup c = inserted shape values c

/-- An update succeeds for what is declared, with the supplied values. -/
structure UpdateExact (members : Members) (schema : SchemaShape) (table : JsString)
    (values : Record) : Prop where
  succeeds : (∃ out, schema.validateUpdate members table values = .ok out) ↔
    UpdateConforms schema table values
  result : ∀ shape out, schema.entries.lookup table = some shape →
    schema.validateUpdate members table values = .ok out →
      ∀ c, out.own.lookup c = values.entries.lookup c

/-- A row is accepted if it conforms, and otherwise every key that is no column and every
column that does not conform has an issue. -/
structure ParseExact (shape : TableShape) (row : Json) : Prop where
  succeeds : (∃ r, parseRow shape row = .ok r) ↔ RowConforms shape row
  keys : ∀ issues fs, parseRow shape row = .error issues → row = .obj fs →
    ∀ p ∈ fs, p.1 ≠ js "id" → p.1 ∉ shape.entries.map Prod.fst →
      ∃ issue ∈ issues, issue.path = p.1 ∧ issue.expected = js "no such column"
  columns : ∀ issues fs, parseRow shape row = .error issues → row = .obj fs →
    ∀ p ∈ shape.entries, ¬ ColumnConforms [] fs p →
      ∃ issue ∈ issues, columnIssue (.json (.obj fs)) p.1 p.2 = some issue ∧ Within p.1 issue.path

/-! ## Where inherited names decide -/

/-- The supplied columns pass, where the names of `Object.prototype` count as declared. -/
def ColumnsTaken (shape : TableShape) (values : Record) : Prop :=
  ∀ p ∈ values.entries, match shape.entries.lookup p.1 with
    | some f => Conforms objectPrototypeNames f p.2
    | none => p.1 ∈ objectPrototypeNames ∧ p.2.isNull = false

/-- The record is one of an inherited name that counts as a table. -/
def MembersTaken (members : Members) (table : JsString) (values : Record) : Prop :=
  table ∈ objectPrototypeNames ∧ ∀ p ∈ values.entries, members table p.1 = true ∧ p.2.isNull = false

/-- The insert passes, where the names of `Object.prototype` count as declared and those of
the object that is built as supplied. -/
def InsertTaken (members : Members) (schema : SchemaShape) (table : JsString)
    (values : Record) : Prop :=
  match schema.entries.lookup table with
  | some shape => ColumnsTaken shape values ∧ ∀ p ∈ shape.entries,
      given values p.1 ≠ none ∨ (givenPrototype values).has p.1 = true ∨
        p.2.defaultValue ≠ none ∨ p.2.isOptional = true
  | none => MembersTaken members table values

/-- The update passes, where the names of `Object.prototype` count as declared. -/
def UpdateTaken (members : Members) (schema : SchemaShape) (table : JsString)
    (values : Record) : Prop :=
  values.entries ≠ [] ∧
    match schema.entries.lookup table with
    | some shape => ColumnsTaken shape values
    | none => MembersTaken members table values

/-- No supplied column is only inherited, nor is a key in the values. -/
def ColumnsPlain (shape : TableShape) (values : Record) : Prop :=
  ∀ p ∈ values.entries, match shape.entries.lookup p.1 with
    | some f => NamesPlain f p.2
    | none => p.1 ∉ objectPrototypeNames

/-- No inherited name decides in an insert: `__proto__` is not supplied, unless as the null
that is also its default, and a column that is not supplied but inherited is optional and has
no default. -/
structure InsertPlain (shape : TableShape) (values : Record) : Prop where
  columns : ColumnsPlain shape values
  proto : ∀ v, values.entries.lookup protoName = some v →
    v = .null ∧ (shape.entries.lookup protoName).bind Field.defaultValue = some .null
  missing : ∀ p ∈ shape.entries, values.entries.lookup p.1 = none →
    (givenPrototype values).has p.1 = true → p.2.isOptional = true ∧ p.2.defaultValue = none

/-- No inherited name decides in an update, and `__proto__` is not supplied. -/
structure UpdatePlain (shape : TableShape) (values : Record) : Prop where
  columns : ColumnsPlain shape values
  proto : values.entries.lookup protoName = none

/-- No inherited name decides in a column of a row. -/
def ColumnPlain (fs : List (JsString × Json)) (p : JsString × Field) : Prop :=
  match fs.lookup p.1 with
  | some v => NamesPlain p.2 v
  | none => AbsentAlike p.1 p.2

/-- No inherited name decides in a row: every key that is inherited is `id` or a column, and
in a column the inherited names matter only where it is refused with and without them. -/
structure ParsePlain (shape : TableShape) (fs : List (JsString × Json)) : Prop where
  keys : ∀ p ∈ fs, p.1 ≠ js "id" → p.1 ∈ objectPrototypeNames → p.1 ∈ shape.entries.map Prod.fst
  taken : ∀ p ∈ shape.entries, ColumnConforms objectPrototypeNames fs p → ColumnPlain fs p
  conforms : RowConforms shape (.obj fs) → ∀ p ∈ shape.entries, ColumnPlain fs p

/-! ## What the checks accept -/

theorem checkColumns_isOk {shape : TableShape} {table : JsString} {l : List (JsString × Json)}
    {out : Out} : (∃ out', checkColumns shape table l out = .ok out') ↔
      ∀ p ∈ l, ∃ found, shape.get p.1 = some found ∧ found.check p.2 p.1 = none := by
  induction l generalizing out with
  | nil => exact ⟨fun _ => List.forall_mem_nil _, fun _ => ⟨out, rfl⟩⟩
  | cons p l ih =>
    obtain ⟨column, value⟩ := p
    rw [List.forall_mem_cons]
    unfold checkColumns
    cases hget : shape.get column with
    | none =>
      constructor
      · rintro ⟨_, h⟩
        cases h
      · rintro ⟨⟨f, hf, -⟩, -⟩
        cases hf
    | some found =>
      simp only [Option.some.injEq, exists_eq_left']
      cases hcheck : found.check value column with
      | some bad =>
        constructor
        · rintro ⟨_, h⟩
          cases h
        · rintro ⟨h, -⟩
          cases h
      | none => exact ih.trans (and_iff_right rfl).symm

theorem checkMembers_isOk {member : JsString → Bool} {table : JsString}
    {l : List (JsString × Json)} {out : Out} :
    (∃ out', checkMembers member table l out = .ok out') ↔
      ∀ p ∈ l, member p.1 = true ∧ p.2.isNull = false := by
  induction l generalizing out with
  | nil => exact ⟨fun _ => List.forall_mem_nil _, fun _ => ⟨out, rfl⟩⟩
  | cons p l ih =>
    obtain ⟨column, value⟩ := p
    rw [List.forall_mem_cons]
    unfold checkMembers
    cases hm : member column with
    | false =>
      rw [if_neg Bool.false_ne_true]
      exact ⟨nofun, fun h => by cases h.1.1⟩
    | true =>
      rw [if_pos rfl]
      have hcheck : Found.inherited.check value column =
        if value.isNull then some ⟨column, none⟩ else none := rfl
      rw [hcheck]
      cases hn : value.isNull with
      | true => exact ⟨nofun, fun h => by cases h.1.2⟩
      | false => exact ih.trans (and_iff_right ⟨rfl, rfl⟩).symm

/-- A supplied column, as the check looks it up. -/
theorem found_check_iff {shape : TableShape} {p : JsString × Json} :
    (∃ found, shape.get p.1 = some found ∧ found.check p.2 p.1 = none) ↔
      match shape.entries.lookup p.1 with
      | some f => Conforms objectPrototypeNames f p.2
      | none => p.1 ∈ objectPrototypeNames ∧ p.2.isNull = false := by
  unfold TableShape.get
  cases shape.entries.lookup p.1 with
  | some f =>
    simp only [Option.some.injEq, exists_eq_left']
    exact checkValue_eq_none f p.2 p.1
  | none =>
    simp only
    by_cases hin : p.1 ∈ objectPrototypeNames
    · rw [if_pos hin, and_iff_right hin]
      simp only [Option.some.injEq, exists_eq_left']
      have hcheck : Found.inherited.check p.2 p.1 =
        if p.2.isNull then some ⟨p.1, none⟩ else none := rfl
      rw [hcheck]
      cases p.2.isNull with
      | true => exact ⟨nofun, nofun⟩
      | false => exact ⟨fun _ => rfl, fun _ => rfl⟩
    · rw [if_neg hin]
      constructor
      · rintro ⟨_, hf, -⟩
        cases hf
      · exact fun h => absurd h.1 hin

theorem columnsTaken_iff {shape : TableShape} {values : Record} {table : JsString} {out : Out} :
    (∃ out', checkColumns shape table values.entries out = .ok out') ↔
      ColumnsTaken shape values := by
  rw [checkColumns_isOk]
  exact forall₂_congr fun p _ => found_check_iff

theorem Out.has_iff {o : Out} {k : JsString} :
    o.has k = true ↔ o.own.lookup k ≠ none ∨ o.prototype.has k = true := by
  unfold Out.has
  rw [Bool.or_eq_true, ne_eq, OrderedMap.lookup_eq_none, not_not, List.any_eq_true, List.mem_map]
  simp only [beq_iff_eq]

theorem fillDefaults_isOk {table : JsString} {l : List (JsString × Field)}
    (hn : (l.map Prod.fst).Nodup) {out : Out} :
    (∃ out', fillDefaults table l out = .ok out') ↔ ∀ p ∈ l,
      out.has p.1 = true ∨ p.2.defaultValue ≠ none ∨ p.2.isOptional = true := by
  induction l generalizing out with
  | nil => exact ⟨fun _ => List.forall_mem_nil _, fun _ => ⟨out, rfl⟩⟩
  | cons p l ih =>
    obtain ⟨column, field⟩ := p
    rw [List.map_cons, List.nodup_cons] at hn
    rw [List.forall_mem_cons]
    unfold fillDefaults
    cases hhas : out.has column with
    | true =>
      rw [if_pos rfl, ih hn.2]
      exact (and_iff_right (.inl rfl)).symm
    | false =>
      rw [if_neg Bool.false_ne_true]
      cases hdef : field.defaultValue with
      | none =>
        simp only
        cases hopt : field.isOptional with
        | true =>
          rw [if_pos rfl, ih hn.2]
          exact (and_iff_right (.inr (.inr rfl))).symm
        | false =>
          constructor
          · rintro ⟨_, h⟩
            cases h
          · rintro ⟨h | h | h, -⟩
            · cases h
            · exact absurd rfl h
            · cases h
      | some value =>
        simp only
        -- assigning a default leaves the other columns as they are
        have hcol : column ≠ protoName ∨ out.prototype.hasSetter = false := by
          by_cases hcol : column = protoName
          · refine .inr (Prototype.hasSetter_of_not_has ?_)
            rw [← hcol]
            exact (Bool.or_eq_false_iff.1 hhas).2
          · exact .inl hcol
        obtain ⟨hproto, hown⟩ := Out.assign_own hcol value
        rw [ih hn.2, and_iff_right (.inr (.inl (Option.some_ne_none value)))]
        refine forall₂_congr fun p hp => or_congr_left ?_
        have hne : p.1 ≠ column := by
          intro he
          rw [← he] at hn
          exact hn.1 (List.mem_map.2 ⟨p, hp, rfl⟩)
        rw [Out.has_iff, Out.has_iff, hown, if_neg hne, hproto]

theorem givenPrototype_has {values : Record} (h : (givenPrototype values).has protoName = false) :
    values.entries.lookup protoName = some .null := by
  have hmem : protoName ∈ objectPrototypeNames := by decide
  unfold givenPrototype at h
  cases hv : values.entries.lookup protoName with
  | none =>
    rw [hv] at h
    exact absurd h (by simp [Prototype.has, hmem])
  | some v =>
    rw [hv] at h
    cases v with
    | null => rfl
    | _ => exact absurd h (by simp [Prototype.set, Prototype.has, hmem])

/-- An insert into a table of the schema passes when the columns pass and none is missing. -/
theorem validateInsert_isOk {shape : TableShape} {table : JsString} {values : Record} :
    (∃ out, Schema.validateInsert shape table values = .ok out) ↔
      ColumnsTaken shape values ∧ ∀ p ∈ shape.entries,
        given values p.1 ≠ none ∨ (givenPrototype values).has p.1 = true ∨
          p.2.defaultValue ≠ none ∨ p.2.isOptional = true := by
  rw [← @columnsTaken_iff shape values table .empty]
  unfold Schema.validateInsert
  cases hcols : checkColumns shape table values.entries .empty with
  | error err => exact ⟨nofun, fun h => by obtain ⟨⟨_, h⟩, -⟩ := h; cases h⟩
  | ok mid =>
    simp only
    obtain ⟨hproto, hown, -⟩ := checkColumns_spec values.nodup (fun _ => rfl) hcols
    rw [fillDefaults_isOk shape.nodup, and_iff_right ⟨mid, rfl⟩]
    refine forall₂_congr fun p _ => ?_
    have hgiven : mid.own.lookup p.1 = given values p.1 := by
      rw [hown, given, show Out.empty.own.lookup p.1 = none from rfl, Option.or_none]
    have hgivenProto : mid.prototype = givenPrototype values := hproto
    rw [Out.has_iff, hgiven, hgivenProto, or_assoc]

theorem validateUpdate_isOk {shape : TableShape} {table : JsString} {values : Record} :
    (∃ out, Schema.validateUpdate shape table values = .ok out) ↔
      values.entries ≠ [] ∧ ColumnsTaken shape values := by
  unfold Schema.validateUpdate
  cases hv : values.entries with
  | nil => exact ⟨nofun, fun h => absurd rfl h.1⟩
  | cons p rest =>
    rw [← @columnsTaken_iff shape values table .empty, hv]
    exact (and_iff_right (List.cons_ne_nil p rest)).symm

section Writes

variable {members : Members} {schema : SchemaShape} {table : JsString} {values : Record}
  {shape : TableShape}

theorem tableShape_of_lookup (h : schema.entries.lookup table = some shape) :
    schema.tableShape table = .ok (.shape shape) := by
  unfold SchemaShape.tableShape
  rw [h]

/-- A table that is not in the schema is found if its name is inherited. -/
theorem tableShape_of_none (h : schema.entries.lookup table = none) :
    (table ∈ objectPrototypeNames ∧ schema.tableShape table = .ok .inherited) ∨
      (table ∉ objectPrototypeNames ∧ ∃ err, schema.tableShape table = .error err) := by
  unfold SchemaShape.tableShape
  rw [h]
  by_cases hin : table ∈ objectPrototypeNames
  · exact .inl ⟨hin, if_pos hin⟩
  · exact .inr ⟨hin, _, if_neg hin⟩

theorem insert_isOk : (∃ out, schema.validateInsert members table values = .ok out) ↔
    InsertTaken members schema table values := by
  unfold SchemaShape.validateInsert InsertTaken
  cases h : schema.entries.lookup table with
  | some shape =>
    rw [tableShape_of_lookup h]
    exact validateInsert_isOk
  | none =>
    rcases tableShape_of_none h with ⟨hin, hfound⟩ | ⟨hin, err, hfound⟩
    · rw [hfound]
      exact checkMembers_isOk.trans (and_iff_right hin).symm
    · rw [hfound]
      exact ⟨nofun, fun h => absurd h.1 hin⟩

theorem update_isOk : (∃ out, schema.validateUpdate members table values = .ok out) ↔
    UpdateTaken members schema table values := by
  unfold SchemaShape.validateUpdate UpdateTaken
  cases h : schema.entries.lookup table with
  | some shape =>
    rw [tableShape_of_lookup h]
    exact validateUpdate_isOk
  | none =>
    rcases tableShape_of_none h with ⟨hin, hfound⟩ | ⟨hin, err, hfound⟩
    · rw [hfound]
      simp only
      cases hv : values.entries with
      | nil => exact ⟨nofun, fun h => absurd rfl h.1⟩
      | cons p rest =>
        refine Iff.trans ?_ (and_iff_right (List.cons_ne_nil p rest)).symm
        rw [MembersTaken, and_iff_right hin, hv]
        exact checkMembers_isOk
    · rw [hfound]
      exact ⟨nofun, fun h => absurd h.2.1 hin⟩

/-! ## Exact writes -/

theorem ColumnsPlain.alike (h : ColumnsPlain shape values) :
    ColumnsTaken shape values ↔ ColumnsConform shape values := by
  refine forall₂_congr fun p hp => ?_
  have hplain := h p hp
  cases hf : shape.entries.lookup p.1 with
  | some f =>
    simp only [Option.some.injEq, exists_eq_left']
    rw [hf] at hplain
    exact (judged f p.2).alike hplain
  | none =>
    rw [hf] at hplain
    constructor
    · exact fun h => absurd h.1 hplain
    · rintro ⟨_, hf, -⟩
      cases hf

theorem columnsPlain_of_both (h : ColumnsTaken shape values) (h' : ColumnsConform shape values) :
    ColumnsPlain shape values := by
  intro p hp
  obtain ⟨f, hf, hconf⟩ := h' p hp
  have htaken := h p hp
  rw [hf] at htaken ⊢
  exact (judged f p.2).plain htaken hconf

theorem given_eq_none {c : JsString} :
    given values c = none ↔ c = protoName ∨ values.entries.lookup c = none := by
  unfold given
  by_cases hc : c = protoName
  · rw [if_pos hc]
    exact iff_of_true rfl (.inl hc)
  · rw [if_neg hc, or_iff_right hc]

theorem InsertPlain.alike (hlook : schema.entries.lookup table = some shape)
    (h : InsertPlain shape values) :
    InsertTaken members schema table values ↔ InsertConforms schema table values := by
  unfold InsertTaken InsertConforms
  simp only [hlook, Option.some.injEq, exists_eq_left']
  refine and_congr h.columns.alike (forall₂_congr fun p hp => ?_)
  cases hv : values.entries.lookup p.1 with
  | none =>
    have hgiven : given values p.1 = none := given_eq_none.2 (.inr hv)
    refine ⟨fun hany _ => ?_, fun hmiss => ?_⟩
    · rcases hany with hany | hany | hany | hany
      · exact absurd hgiven hany
      · exact .inl (h.missing p hp hv hany).1
      · exact .inr hany
      · exact .inl hany
    · exact .inr (.inr (hmiss rfl).symm)
  | some v =>
    refine iff_of_true ?_ nofun
    by_cases hproto : p.1 = protoName
    · -- `__proto__` is the null that is its default
      rw [hproto] at hv
      obtain ⟨-, hdef⟩ := h.proto v hv
      rw [← hproto, (OrderedMap.mem_iff_lookup shape.nodup).1 hp, Option.bind_some] at hdef
      exact .inr (.inr (.inl (by rw [hdef]; nofun)))
    · refine .inl fun hgiven => ?_
      rcases given_eq_none.1 hgiven with hp | hn
      · exact hproto hp
      · rw [hv] at hn
        cases hn

theorem InsertPlain.written_eq (h : InsertPlain shape values) (c : JsString) :
    written shape values c = inserted shape values c := by
  unfold written inserted given
  by_cases hproto : c = protoName
  · subst hproto
    rw [if_pos rfl, Option.none_or]
    cases hv : values.entries.lookup protoName with
    | some v =>
      obtain ⟨rfl, hdef⟩ := h.proto v hv
      have hnot : (givenPrototype values).has protoName = false := by
        rw [givenPrototype, hv]
        rfl
      simp only [hnot, Bool.false_eq_true, if_false]
      exact hdef
    | none =>
      rw [Option.none_or]
      cases hf : shape.entries.lookup protoName with
      | none => rfl
      | some f =>
        rw [Option.bind_some, Option.bind_some]
        split
        · rename_i hhas
          exact (h.missing _ ((OrderedMap.mem_iff_lookup shape.nodup).2 hf) hv hhas).2.symm
        · rfl
  · rw [if_neg hproto]
    cases hv : values.entries.lookup c with
    | some v => rfl
    | none =>
      rw [Option.none_or, Option.none_or]
      cases hf : shape.entries.lookup c with
      | none => rfl
      | some f =>
        rw [Option.bind_some, Option.bind_some]
        split
        · rename_i hhas
          exact (h.missing _ ((OrderedMap.mem_iff_lookup shape.nodup).2 hf) hv hhas).2.symm
        · rfl

/-- An insert that is exact and accepted decides by no inherited name. -/
theorem insertPlain_of_both (htaken : ColumnsTaken shape values)
    (hconf : ColumnsConform shape values)
    (hmiss : ∀ p ∈ shape.entries, values.entries.lookup p.1 = none →
      p.2.isOptional = true ∨ p.2.defaultValue ≠ none)
    (hwritten : ∀ c, written shape values c = inserted shape values c) :
    InsertPlain shape values where
  columns := columnsPlain_of_both htaken hconf
  proto v hv := by
    have h := hwritten protoName
    unfold written inserted given at h
    rw [if_pos rfl, Option.none_or, hv, Option.some_or] at h
    cases hf : shape.entries.lookup protoName with
    | none =>
      rw [hf] at h
      cases h
    | some f =>
      rw [hf, Option.bind_some] at h
      split at h
      · cases h
      · rename_i hnot
        have hnull := givenPrototype_has (Bool.eq_false_iff.2 hnot)
        rw [hv] at hnull
        obtain rfl := Option.some.inj hnull
        exact ⟨rfl, h⟩
  missing p hp hv hhas := by
    have h := hwritten p.1
    unfold written inserted at h
    rw [given_eq_none.2 (.inr hv), hv, (OrderedMap.mem_iff_lookup shape.nodup).1 hp,
      Option.none_or, Option.none_or, Option.bind_some, Option.bind_some, if_pos hhas] at h
    exact ⟨(hmiss p hp hv).resolve_right fun hne => hne h.symm, h.symm⟩

theorem insert_exact_iff : InsertExact members schema table values ↔
    (InsertTaken members schema table values ∨ InsertConforms schema table values →
      ∃ shape, schema.entries.lookup table = some shape ∧ InsertPlain shape values) := by
  constructor
  · rintro ⟨hok, hres⟩ hany
    have htaken : InsertTaken members schema table values := by
      rw [← insert_isOk]
      exact hany.elim insert_isOk.2 hok.2
    obtain ⟨out, hout⟩ := insert_isOk.2 htaken
    obtain ⟨shape, hlook, hcols, hmiss⟩ := hok.1 ⟨out, hout⟩
    refine ⟨shape, hlook, ?_⟩
    unfold InsertTaken at htaken
    rw [hlook] at htaken
    refine insertPlain_of_both htaken.1 hcols hmiss fun c => ?_
    have hwrote := hres shape out hlook hout c
    unfold SchemaShape.validateInsert at hout
    rw [tableShape_of_lookup hlook] at hout
    rw [← (validateInsert_spec hout).1 c, hwrote]
  · intro h
    refine ⟨?_, fun shape out hlook hout c => ?_⟩
    · rw [insert_isOk]
      constructor
      · intro htaken
        obtain ⟨shape, hlook, hplain⟩ := h (.inl htaken)
        exact (hplain.alike hlook).1 htaken
      · intro hconf
        obtain ⟨shape, hlook, hplain⟩ := h (.inr hconf)
        exact (hplain.alike hlook).2 hconf
    · obtain ⟨shape', hlook', hplain⟩ := h (.inl (insert_isOk.1 ⟨out, hout⟩))
      rw [hlook] at hlook'
      obtain rfl := Option.some.inj hlook'
      unfold SchemaShape.validateInsert at hout
      rw [tableShape_of_lookup hlook] at hout
      rw [(validateInsert_spec hout).1 c, hplain.written_eq]

theorem update_exact_iff : UpdateExact members schema table values ↔
    (UpdateTaken members schema table values ∨ UpdateConforms schema table values →
      ∃ shape, schema.entries.lookup table = some shape ∧ UpdatePlain shape values) := by
  have halike : ∀ {shape}, schema.entries.lookup table = some shape → UpdatePlain shape values →
      (UpdateTaken members schema table values ↔ UpdateConforms schema table values) := by
    intro shape hlook hplain
    unfold UpdateTaken UpdateConforms
    simp only [hlook, Option.some.injEq, exists_eq_left']
    exact and_congr_right fun _ => hplain.columns.alike
  constructor
  · rintro ⟨hok, hres⟩ hany
    have htaken : UpdateTaken members schema table values := by
      rw [← update_isOk]
      exact hany.elim update_isOk.2 hok.2
    obtain ⟨out, hout⟩ := update_isOk.2 htaken
    obtain ⟨shape, hlook, -, hcols⟩ := hok.1 ⟨out, hout⟩
    refine ⟨shape, hlook, ?_, ?_⟩
    · unfold UpdateTaken at htaken
      rw [hlook] at htaken
      exact columnsPlain_of_both htaken.2 hcols
    · have hwrote := hres shape out hlook hout protoName
      unfold SchemaShape.validateUpdate at hout
      rw [tableShape_of_lookup hlook] at hout
      rw [← hwrote, (validateUpdate_spec hout).1]
      exact if_pos rfl
  · intro h
    refine ⟨?_, fun shape out hlook hout c => ?_⟩
    · rw [update_isOk]
      constructor
      · intro htaken
        obtain ⟨shape, hlook, hplain⟩ := h (.inl htaken)
        exact (halike hlook hplain).1 htaken
      · intro hconf
        obtain ⟨shape, hlook, hplain⟩ := h (.inr hconf)
        exact (halike hlook hplain).2 hconf
    · obtain ⟨shape', hlook', hplain⟩ := h (.inl (update_isOk.1 ⟨out, hout⟩))
      rw [hlook] at hlook'
      obtain rfl := Option.some.inj hlook'
      unfold SchemaShape.validateUpdate at hout
      rw [tableShape_of_lookup hlook] at hout
      rw [(validateUpdate_spec hout).1 c, given]
      split
      · rename_i hc
        rw [hc, hplain.proto]
      · rfl

end Writes

/-! ## Paths of problems -/

theorem Within.refl (path : JsString) : Within path path := .inl rfl

theorem within_key (path key : JsString) : Within path (path ++ js "." ++ key) :=
  .inr ⟨key, .inl rfl⟩

theorem within_element (path : JsString) (i : Nat) : Within path (elementPath path i) :=
  .inr ⟨_, .inr (List.append_assoc _ _ _)⟩

theorem Within.trans {a b c : JsString} (h : Within a b) (h' : Within b c) : Within a c := by
  rcases h with rfl | ⟨r, rfl | rfl⟩
  · exact h'
  · rcases h' with rfl | ⟨r', rfl | rfl⟩
    · exact .inr ⟨r, .inl rfl⟩
    · exact .inr ⟨r ++ js "." ++ r', .inl (by simp only [List.append_assoc])⟩
    · exact .inr ⟨r ++ js "[" ++ r', .inl (by simp only [List.append_assoc])⟩
  · rcases h' with rfl | ⟨r', rfl | rfl⟩
    · exact .inr ⟨r, .inr rfl⟩
    · exact .inr ⟨r ++ js "." ++ r', .inr (by simp only [List.append_assoc])⟩
    · exact .inr ⟨r ++ js "[" ++ r', .inr (by simp only [List.append_assoc])⟩

theorem checkElements_within {check : Json → JsString → Option Problem} {path : JsString}
    (h : ∀ x p bad, check x p = some bad → Within p bad.path) {i : Nat} {xs : List Json}
    {bad : Problem} (hbad : checkElements check path i xs = some bad) : Within path bad.path := by
  induction xs generalizing i with
  | nil => cases hbad
  | cons x xs ih =>
    rcases Option.or_eq_some_iff.1 hbad with hx | ⟨-, hxs⟩
    · exact (within_element path i).trans (h x _ bad hx)
    · exact ih hxs

theorem checkShape_within {shape : List (JsString × Field)} {path : JsString} {record : Seen}
    (h : ∀ p ∈ shape, ∀ v q bad, checkValue p.2 v q = some bad → Within q bad.path)
    {bad : Problem} (hbad : checkShape shape record path = some bad) : Within path bad.path := by
  induction shape with
  | nil => cases hbad
  | cons p shape ih =>
    obtain ⟨key, f⟩ := p
    obtain ⟨hf, hshape⟩ := List.forall_mem_cons.1 h
    unfold checkShape at hbad
    split at hbad
    · split at hbad
      · exact ih hshape hbad
      · obtain rfl := Option.some.inj hbad
        exact within_key path key
    · rename_i v _
      rcases Option.or_eq_some_iff.1 hbad with hv | ⟨-, hrest⟩
      · exact (within_key path key).trans (hf v _ bad hv)
      · exact ih hshape hrest

/-- A problem with a value is found in the value. -/
theorem checkValue_within (f : Field) : ∀ (v : Seen) (path : JsString) (bad : Problem),
    checkValue f v path = some bad → Within path bad.path := by
  have hhere : ∀ {path : JsString} {e : Option JsString} {bad : Problem} {c : Prop} [Decidable c],
      (if c then none else some ⟨path, e⟩) = some bad → Within path bad.path := by
    intro path e bad c _ h
    split at h
    · cases h
    · obtain rfl := Option.some.inj h
      exact .refl path
  induction f using Field.indField with
  | string fl =>
    intro v path bad h
    unfold checkValue at h
    split at h
    · exact hhere h
    · exact hhere h
  | number fl =>
    intro v path bad h
    unfold checkValue at h
    split at h
    · exact hhere h
    · simp only at h
      split at h
      · exact hhere h
      · obtain rfl := Option.some.inj h
        exact .refl path
  | boolean fl =>
    intro v path bad h
    unfold checkValue at h
    split at h
    · exact hhere h
    · exact hhere h
  | enum values fl =>
    intro v path bad h
    unfold checkValue at h
    split at h
    · exact hhere h
    · exact hhere h
  | array element fl ih =>
    intro v path bad h
    unfold checkValue at h
    split at h
    · exact hhere h
    · simp only at h
      split at h
      · exact checkElements_within (fun x p bad hx => ih _ p bad hx) h
      · obtain rfl := Option.some.inj h
        exact .refl path
  | object shape fl ih =>
    intro v path bad h
    unfold checkValue at h
    split at h
    · exact hhere h
    · simp only at h
      split at h
      · split at h
        · obtain rfl := Option.some.inj h
          exact within_key path _
        · exact checkShape_within ih h
      · obtain rfl := Option.some.inj h
        exact .refl path

section Reads

variable {shape : TableShape} {fs : List (JsString × Json)}

theorem columnIssue_within {record : Seen} {column : JsString} {f : Field} {issue : ParseIssue}
    (h : columnIssue record column f = some issue) : Within column issue.path := by
  unfold columnIssue at h
  split at h
  · split at h
    · cases h
    · obtain rfl := Option.some.inj h
      exact .refl column
  · rename_i v _
    obtain ⟨bad, hbad, rfl⟩ := Option.map_eq_some_iff.1 h
    exact checkValue_within f v column bad hbad

/-! ## Exact reads -/

/-- A column of a row, as the check looks it up. -/
theorem columnIssue_none_iff {p : JsString × Field} :
    columnIssue (.json (.obj fs)) p.1 p.2 = none ↔ ColumnConforms objectPrototypeNames fs p := by
  unfold ColumnConforms
  cases hv : fs.lookup p.1 with
  | some v =>
    unfold columnIssue
    rw [present_read hv]
    exact Option.map_eq_none_iff.trans (checkValue_eq_none p.2 v p.1)
  | none =>
    rw [← absent_read hv p.2 p.1]
    unfold columnIssue
    cases (Seen.json (.obj fs)).read p.1 with
    | some s => exact Option.map_eq_none_iff
    | none =>
      simp only
      cases p.2.isOptional with
      | true => exact ⟨fun _ => rfl, fun _ => rfl⟩
      | false => exact ⟨nofun, fun h => absurd h Bool.false_ne_true⟩

theorem get_isSome_iff {key : JsString} :
    (shape.get key).isSome = true ↔
      key ∈ shape.entries.map Prod.fst ∨ key ∈ objectPrototypeNames := by
  unfold TableShape.get
  cases hf : shape.entries.lookup key with
  | some f =>
    have hmem := List.mem_map_of_mem (f := Prod.fst) ((OrderedMap.mem_iff_lookup shape.nodup).2 hf)
    exact iff_of_true rfl (.inl hmem)
  | none =>
    rw [or_iff_right (OrderedMap.lookup_eq_none.1 hf)]
    by_cases hin : key ∈ objectPrototypeNames
    · simp only [if_pos hin]
      exact iff_of_true rfl hin
    · simp only [if_neg hin]
      exact iff_of_false nofun hin

theorem mem_keyIssues {issue : ParseIssue} :
    issue ∈ keyIssues shape (.json (.obj fs)) ↔ ∃ p ∈ fs, p.1 ≠ js "id" ∧
      p.1 ∉ shape.entries.map Prod.fst ∧ p.1 ∉ objectPrototypeNames ∧
        issue = ⟨p.1, js "no such column",
          (((Seen.json (.obj fs)).read p.1).map Seen.describe).getD []⟩ := by
  unfold keyIssues
  rw [List.mem_filterMap, Seen.keys]
  constructor
  · rintro ⟨key, hkey, hissue⟩
    obtain ⟨p, hp, rfl⟩ := List.mem_map.1 hkey
    split at hissue
    · cases hissue
    · rename_i hnot
      rw [not_or, get_isSome_iff, not_or] at hnot
      exact ⟨p, hp, hnot.1, hnot.2.1, hnot.2.2, (Option.some.inj hissue).symm⟩
  · rintro ⟨p, hp, hid, hshape, hin, rfl⟩
    refine ⟨p.1, List.mem_map.2 ⟨p, hp, rfl⟩, if_neg ?_⟩
    rw [not_or, get_isSome_iff, not_or]
    exact ⟨hid, hshape, hin⟩

theorem mem_columnIssues {issue : ParseIssue} :
    issue ∈ columnIssues shape (.json (.obj fs)) ↔
      ∃ p ∈ shape.entries, columnIssue (.json (.obj fs)) p.1 p.2 = some issue :=
  List.mem_filterMap

/-- What `parseRow` accepts counts the names of `Object.prototype`. -/
theorem parse_isOk : (∃ r, parseRow shape (.obj fs) = .ok r) ↔
    (∀ p ∈ fs, p.1 = js "id" ∨ p.1 ∈ shape.entries.map Prod.fst ∨ p.1 ∈ objectPrototypeNames) ∧
      ∀ p ∈ shape.entries, ColumnConforms objectPrototypeNames fs p := by
  rw [parseRow_eq_ok]
  refine and_congr ?_ ?_
  · rw [List.eq_nil_iff_forall_not_mem]
    constructor
    · intro h p hp
      by_contra hnot
      simp only [not_or] at hnot
      exact h _ (mem_keyIssues.2 ⟨p, hp, hnot.1, hnot.2.1, hnot.2.2, rfl⟩)
    · intro h issue hissue
      obtain ⟨p, hp, h1, h2, h3, -⟩ := mem_keyIssues.1 hissue
      rcases h p hp with h | h | h
      · exact h1 h
      · exact h2 h
      · exact h3 h
  · unfold columnIssues
    rw [List.filterMap_eq_nil_iff]
    exact forall₂_congr fun p _ => columnIssue_none_iff

theorem parse_issues {issues : List ParseIssue}
    (h : parseRow shape (.obj fs) = .error issues) :
    issues = keyIssues shape (.json (.obj fs)) ++ columnIssues shape (.json (.obj fs)) := by
  unfold parseRow at h
  simp only at h
  split at h
  · cases h
  · exact (Except.error.inj h).symm

theorem columnPlain_alike {p : JsString × Field} (h : ColumnPlain fs p) :
    ColumnConforms objectPrototypeNames fs p ↔ ColumnConforms [] fs p := by
  unfold ColumnPlain at h
  unfold ColumnConforms
  cases hv : fs.lookup p.1 with
  | some v =>
    rw [hv] at h
    exact (judged p.2 v).alike h
  | none =>
    rw [hv] at h
    exact absentAlike_iff.1 h

theorem columnPlain_of_both {p : JsString × Field}
    (h : ColumnConforms objectPrototypeNames fs p) (h' : ColumnConforms [] fs p) :
    ColumnPlain fs p := by
  unfold ColumnConforms at h h'
  unfold ColumnPlain
  cases hv : fs.lookup p.1 with
  | some v =>
    rw [hv] at h h'
    exact (judged p.2 v).plain h h'
  | none =>
    rw [hv] at h h'
    exact absentAlike_iff.2 (iff_of_true h h')

/-- A path in a column is no inherited name, unless it is the column. -/
theorem within_inherited {column path : JsString} (h : Within column path)
    (hin : path ∈ objectPrototypeNames) : path = column := by
  have hno : ∀ k ∈ objectPrototypeNames, (46 : CodeUnit) ∉ k ∧ (91 : CodeUnit) ∉ k := by decide
  rcases h with h | ⟨rest, h | h⟩
  · exact h
  · have hdot : (46 : CodeUnit) ∈ column ++ js "." ++ rest :=
      List.mem_append_left _ (List.mem_append_right _ (by decide))
    rw [← h] at hdot
    exact absurd hdot (hno path hin).1
  · have hopen : (91 : CodeUnit) ∈ column ++ js "[" ++ rest :=
      List.mem_append_left _ (List.mem_append_right _ (by decide))
    rw [← h] at hopen
    exact absurd hopen (hno path hin).2

/-- A row that is an object is parsed exactly when no inherited name decides. -/
theorem parse_exact_obj : ParseExact shape (.obj fs) ↔ ParsePlain shape fs := by
  constructor
  · rintro ⟨hok, hkeys, hcols⟩
    refine ⟨fun p hp hid hin => ?_, fun p hp htaken => ?_, fun hrow p hp => ?_⟩
    · by_contra hshape
      cases hparse : parseRow shape (.obj fs) with
      | ok r =>
        obtain ⟨gs, hgs, hdecl, -⟩ := hok.1 ⟨r, hparse⟩
        rw [← Json.obj.inj hgs] at hdecl
        exact (hdecl p hp).elim hid hshape
      | error issues =>
        -- no issue has the key as its path: it is reported neither as a key nor in a column
        obtain ⟨issue, hmem, hpath, -⟩ := hkeys issues fs hparse rfl p hp hid hshape
        rw [parse_issues hparse, List.mem_append, mem_keyIssues, mem_columnIssues] at hmem
        rcases hmem with ⟨q, -, -, -, hq, rfl⟩ | ⟨q, hq, hissue⟩
        · have hname : q.1 = p.1 := hpath
          rw [hname] at hq
          exact hq hin
        · have hwithin := columnIssue_within hissue
          rw [hpath] at hwithin
          rw [within_inherited hwithin hin] at hshape
          exact hshape (List.mem_map.2 ⟨q, hq, rfl⟩)
    · refine columnPlain_of_both htaken ?_
      by_contra hnot
      cases hparse : parseRow shape (.obj fs) with
      | ok r =>
        obtain ⟨gs, hgs, -, hconf⟩ := hok.1 ⟨r, hparse⟩
        rw [← Json.obj.inj hgs] at hconf
        exact hnot (hconf p hp)
      | error issues =>
        obtain ⟨issue, -, hissue, -⟩ := hcols issues fs hparse rfl p hp hnot
        rw [columnIssue_none_iff.2 htaken] at hissue
        cases hissue
    · obtain ⟨gs, hgs, -, hconf⟩ := id hrow
      rw [← Json.obj.inj hgs] at hconf
      exact columnPlain_of_both ((parse_isOk.1 (hok.2 hrow)).2 p hp) (hconf p hp)
  · rintro ⟨hkeys, htaken, hconforms⟩
    refine ⟨?_, fun issues gs hparse hgs p hp hid hshape => ?_,
      fun issues gs hparse hgs p hp hnot => ?_⟩
    · rw [parse_isOk]
      constructor
      · rintro ⟨hdecl, hcols⟩
        refine ⟨fs, rfl, fun p hp => ?_, fun p hp => ?_⟩
        · by_cases hid : p.1 = js "id"
          · exact .inl hid
          · exact .inr (((hdecl p hp).resolve_left hid).elim id (hkeys p hp hid))
        · exact (columnPlain_alike (htaken p hp (hcols p hp))).1 (hcols p hp)
      · intro hrow
        obtain ⟨gs, hgs, hdecl, hcols⟩ := id hrow
        rw [← Json.obj.inj hgs] at hdecl hcols
        exact ⟨fun p hp => (hdecl p hp).imp_right .inl,
          fun p hp => (columnPlain_alike (hconforms hrow p hp)).2 (hcols p hp)⟩
    · obtain rfl := Json.obj.inj hgs
      have hin : p.1 ∉ objectPrototypeNames := fun hin => hshape (hkeys p hp hid hin)
      refine ⟨⟨p.1, js "no such column",
        (((Seen.json (.obj fs)).read p.1).map Seen.describe).getD []⟩, ?_, rfl, rfl⟩
      rw [parse_issues hparse]
      exact List.mem_append_left _ (mem_keyIssues.2 ⟨p, hp, hid, hshape, hin, rfl⟩)
    · obtain rfl := Json.obj.inj hgs
      have hrefused : columnIssue (.json (.obj fs)) p.1 p.2 ≠ none := by
        rw [Ne, columnIssue_none_iff]
        exact fun hc => hnot ((columnPlain_alike (htaken p hp hc)).1 hc)
      obtain ⟨issue, hissue⟩ := Option.ne_none_iff_exists'.1 hrefused
      refine ⟨issue, ?_, hissue, columnIssue_within hissue⟩
      rw [parse_issues hparse]
      exact List.mem_append_right _ (mem_columnIssues.2 ⟨p, hp, hissue⟩)

theorem parse_exact_iff {row : Json} :
    ParseExact shape row ↔ ∀ fs, row = .obj fs → ParsePlain shape fs := by
  have hother : (∀ fs, row ≠ .obj fs) → (¬ ∃ r, parseRow shape row = .ok r) →
      ParseExact shape row := by
    intro hno hrefused
    refine ⟨iff_of_false hrefused ?_, fun _ fs _ h => absurd h (hno fs),
      fun _ fs _ h => absurd h (hno fs)⟩
    rintro ⟨fs, h, -⟩
    exact hno fs h
  cases row with
  | obj fs =>
    rw [parse_exact_obj]
    constructor
    · intro h gs hgs
      rwa [← Json.obj.inj hgs]
    · exact fun h => h fs rfl
  | null => exact iff_of_true (hother nofun nofun) nofun
  | bool b => exact iff_of_true (hother nofun nofun) nofun
  | num n => exact iff_of_true (hother nofun nofun) nofun
  | str s => exact iff_of_true (hother nofun nofun) nofun
  | arr xs => exact iff_of_true (hother nofun nofun) nofun

end Reads

/-- **The schema checks accept what is declared if and only if no inherited name decides.** A
write that passes by what is declared, or by what is declared and inherited, names a declared
table and no inherited name plays a role in it; a row is read likewise, column by column. -/
theorem checks_exact_iff (members : Members) (schema : SchemaShape) (table : JsString)
    (values : Record) (shape : TableShape) (row : Json) :
    (InsertExact members schema table values ↔
      (InsertTaken members schema table values ∨ InsertConforms schema table values →
        ∃ s, schema.entries.lookup table = some s ∧ InsertPlain s values)) ∧
    (UpdateExact members schema table values ↔
      (UpdateTaken members schema table values ∨ UpdateConforms schema table values →
        ∃ s, schema.entries.lookup table = some s ∧ UpdatePlain s values)) ∧
    (ParseExact shape row ↔ ∀ fs, row = .obj fs → ParsePlain shape fs) :=
  ⟨insert_exact_iff, update_exact_iff, parse_exact_iff⟩

/-- Todos, with a title. -/
def todosSchema : SchemaShape where
  entries := [(js "todos", ⟨[(js "title", Builders.string)], List.nodup_singleton _⟩)]
  nodup := List.nodup_singleton _

/-- A title, and a column that every object inherits. -/
def constructed : Record where
  entries := [(js "title", .str (js "milk")), (js "constructor", .bool true)]
  nodup := by decide

/-- `shape["constructor"]` is `Object`, so a column that is not declared is written. -/
theorem constructor_inserted :
    (∃ out, todosSchema.validateInsert (fun _ _ => false) (js "todos") constructed = .ok out ∧
      out.own.lookup (js "constructor") = some (.bool true)) ∧
    ¬ InsertConforms todosSchema (js "todos") constructed ∧
    ¬ InsertExact (fun _ _ => false) todosSchema (js "todos") constructed := by
  have hok : ∃ out, todosSchema.validateInsert (fun _ _ => false) (js "todos") constructed =
      .ok out ∧ out.own.lookup (js "constructor") = some (.bool true) := ⟨_, rfl, rfl⟩
  have hnot : ¬ InsertConforms todosSchema (js "todos") constructed := by
    rintro ⟨shape, hlook, hcols, -⟩
    obtain rfl := Option.some.inj hlook
    obtain ⟨f, hf, -⟩ := hcols (js "constructor", .bool true)
      (List.mem_cons_of_mem _ List.mem_cons_self)
    cases hf
  obtain ⟨out, hout, hown⟩ := id hok
  exact ⟨hok, hnot, fun h => hnot (h.succeeds.1 ⟨out, hout⟩)⟩

end TangentFeed.Schema
