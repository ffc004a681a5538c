import TangentFeed.Replica.Rows
import TangentFeed.Replica.Sample
import TangentFeed.Schema.Alike

/-!
# What is accepted on write is accepted on read

A row is inserted as `validateInsert` built it, updated as `validateUpdate` built
the updates, and checked by `parseRow`. A cell that is null is not returned, so a
column is read as it was written exactly when no null is written to a column that
may not be absent.
-/

namespace TangentFeed.Schema

/-! ## What a validation builds -/

/-- The prototype that the given columns leave. -/
def givenPrototype (values : Record) : Prototype :=
  match values.entries.lookup protoName with
  | none => .object
  | some v => Prototype.object.set v

/-- The value given for a column; one given for `__proto__` makes no property. -/
def given (values : Record) (c : JsString) : Option Json :=
  if c = protoName then none else values.entries.lookup c

/-- What an insert writes to a column: what is given, else the default. A name that the
prototype has counts as given. -/
def written (shape : TableShape) (values : Record) (c : JsString) : Option Json :=
  (given values c).or ((shape.entries.lookup c).bind fun f =>
    if (givenPrototype values).has c then none else f.defaultValue)

/-- A prototype without `__proto__` is `null`, and assigning makes an own property. -/
theorem Prototype.hasSetter_of_not_has {p : Prototype} (h : p.has protoName = false) :
    p.hasSetter = false := by
  have hmem : protoName ∈ objectPrototypeNames := by decide
  cases p with
  | null => rfl
  | object => exact absurd h (by simp [Prototype.has, hmem])
  | value v => cases v <;> exact absurd h (by simp [Prototype.has, hmem])

theorem Out.assign_of_setter {o : Out} (h : o.prototype.hasSetter = true) (v : Json) :
    o.assign protoName v = { o with prototype := o.prototype.set v } := if_pos ⟨rfl, h⟩

/-- An assignment that makes an own property. -/
theorem Out.assign_own {o : Out} {k : JsString} (h : k ≠ protoName ∨ o.prototype.hasSetter = false)
    (v : Json) : (o.assign k v).prototype = o.prototype ∧
      ∀ c, (o.assign k v).own.lookup c = if c = k then some v else o.own.lookup c := by
  have hnot : ¬ (k = protoName ∧ o.prototype.hasSetter = true) := by
    rintro ⟨rfl, hs⟩
    rcases h with h | h
    · exact h rfl
    · rw [hs] at h
      cases h
  unfold Out.assign
  rw [if_neg hnot]
  exact ⟨rfl, lookup_withOwn o.nodup k v⟩

/-- What `checkColumns` accepts and assigns. -/
theorem checkColumns_spec {shape : TableShape} {table : JsString} {l : List (JsString × Json)}
    (hn : (l.map Prod.fst).Nodup) {out out' : Out}
    (hp : protoName ∈ l.map Prod.fst → out.prototype = .object)
    (h : checkColumns shape table l out = .ok out') :
    out'.prototype = (match l.lookup protoName with
      | none => out.prototype
      | some v => out.prototype.set v) ∧
    (∀ c, out'.own.lookup c = (if c = protoName then none else l.lookup c).or (out.own.lookup c)) ∧
    ∀ p ∈ l, ∃ found, shape.get p.1 = some found ∧ found.check p.2 p.1 = none := by
  induction l generalizing out with
  | nil =>
    obtain rfl := Except.ok.inj h
    refine ⟨rfl, fun c => ?_, List.forall_mem_nil _⟩
    rw [List.lookup_nil, ite_self, Option.none_or]
  | cons e l ih =>
    obtain ⟨column, value⟩ := e
    rw [List.map_cons, List.nodup_cons] at hn
    unfold checkColumns at h
    cases hget : shape.get column with
    | none => simp only [hget] at h; cases h
    | some found =>
      simp only [hget] at h
      cases hcheck : found.check value column with
      | some bad => simp only [hcheck] at h; cases h
      | none =>
        simp only [hcheck] at h
        by_cases hcol : column = protoName
        · subst hcol
          have hobj := hp List.mem_cons_self
          rw [Out.assign_of_setter (by rw [hobj]; rfl)] at h
          obtain ⟨h1, h2, h3⟩ := ih hn.2 (fun hm => absurd hm hn.1) h
          rw [OrderedMap.lookup_eq_none.2 hn.1] at h1
          refine ⟨?_, fun c => ?_, List.forall_mem_cons.2 ⟨⟨found, hget, hcheck⟩, h3⟩⟩
          · rw [List.lookup_cons_self]
            exact h1
          · rw [h2, List.lookup_cons]
            by_cases hc : c = protoName
            · rw [if_pos hc, if_pos hc]
            · rw [if_neg hc, if_neg hc, beq_eq_false_iff_ne.2 hc]
        · obtain ⟨hproto, hown⟩ := Out.assign_own (o := out) (.inl hcol) value
          obtain ⟨h1, h2, h3⟩ := ih hn.2 (fun hm => by
            rw [hproto]
            exact hp (List.mem_cons_of_mem _ hm)) h
          rw [hproto] at h1
          refine ⟨?_, fun c => ?_, List.forall_mem_cons.2 ⟨⟨found, hget, hcheck⟩, h3⟩⟩
          · rw [h1, List.lookup_cons, beq_eq_false_iff_ne.2 (Ne.symm hcol)]
          · rw [h2, hown, List.lookup_cons]
            by_cases hc : c = column
            · subst hc
              rw [if_neg hcol, if_neg hcol, if_pos rfl, beq_self_eq_true,
                OrderedMap.lookup_eq_none.2 hn.1]
              rfl
            · rw [if_neg hc, beq_eq_false_iff_ne.2 hc]

/-- The defaults that `fillDefaults` assigns. -/
theorem fillDefaults_spec {table : JsString} {l : List (JsString × Field)}
    (hn : (l.map Prod.fst).Nodup) {out out' : Out} (h : fillDefaults table l out = .ok out')
    (c : JsString) : out'.own.lookup c = (out.own.lookup c).or ((l.lookup c).bind fun f =>
      if out.prototype.has c then none else f.defaultValue) := by
  induction l generalizing out with
  | nil =>
    obtain rfl := Except.ok.inj h
    rw [List.lookup_nil, Option.bind_none, Option.or_none]
  | cons e l ih =>
    obtain ⟨column, field⟩ := e
    rw [List.map_cons, List.nodup_cons] at hn
    have hnone : l.lookup column = none := OrderedMap.lookup_eq_none.2 hn.1
    unfold fillDefaults at h
    rw [List.lookup_cons]
    cases hhas : out.has column with
    | true =>
      rw [hhas, if_pos rfl] at h
      rw [ih hn.2 h]
      by_cases hc : c = column
      · subst hc
        rw [hnone, beq_self_eq_true, Option.bind_none, Option.or_none, Option.bind_some]
        rcases Bool.or_eq_true_iff.1 hhas with hown | hproto
        · obtain ⟨p, hp, he⟩ := List.any_eq_true.1 hown
          obtain rfl : p.1 = c := eq_of_beq he
          rw [(OrderedMap.mem_iff_lookup out.nodup).1 hp, Option.some_or]
        · rw [hproto, if_pos rfl, Option.or_none]
      · rw [beq_eq_false_iff_ne.2 hc]
    | false =>
      rw [hhas, if_neg Bool.false_ne_true] at h
      obtain ⟨hown, hproto⟩ := Bool.or_eq_false_iff.1 hhas
      have hfree : out.own.lookup column = none := by
        refine OrderedMap.lookup_eq_none.2 fun hm => ?_
        obtain ⟨p, hp, rfl⟩ := List.mem_map.1 hm
        exact Bool.false_ne_true (hown.symm.trans
          (List.any_eq_true.2 ⟨p, hp, beq_self_eq_true p.1⟩))
      cases hdef : field.defaultValue with
      | some value =>
        simp only [hdef] at h
        have hcol : column ≠ protoName ∨ out.prototype.hasSetter = false := by
          by_cases hcol : column = protoName
          · subst hcol
            exact .inr (Prototype.hasSetter_of_not_has hproto)
          · exact .inl hcol
        obtain ⟨hproto', hown'⟩ := Out.assign_own hcol value
        rw [ih hn.2 h, hown', hproto']
        by_cases hc : c = column
        · subst hc
          rw [if_pos rfl, hnone, beq_self_eq_true, hfree, Option.bind_some, hproto, hdef]
          rfl
        · rw [if_neg hc, beq_eq_false_iff_ne.2 hc]
      | none =>
        simp only [hdef] at h
        split at h
        · rw [ih hn.2 h]
          by_cases hc : c = column
          · subst hc
            rw [hnone, beq_self_eq_true, Option.bind_some, hdef, ite_self]
            rfl
          · rw [beq_eq_false_iff_ne.2 hc]
        · cases h

/-- What was accepted of the given columns. -/
def Accepted (shape : TableShape) (values : Record) : Prop :=
  ∀ p ∈ values.entries, ∃ found, shape.get p.1 = some found ∧ found.check p.2 p.1 = none

theorem validateInsert_spec {shape : TableShape} {table : JsString} {values : Record} {out : Out}
    (h : validateInsert shape table values = .ok out) :
    (∀ c, out.own.lookup c = written shape values c) ∧ Accepted shape values := by
  unfold validateInsert at h
  cases hcols : checkColumns shape table values.entries .empty with
  | error err => rw [hcols] at h; cases h
  | ok mid =>
    rw [hcols] at h
    obtain ⟨hproto, hown, hacc⟩ := checkColumns_spec values.nodup (fun _ => rfl) hcols
    refine ⟨fun c => ?_, hacc⟩
    have hgiven : mid.own.lookup c = given values c := by
      rw [hown, given, show Out.empty.own.lookup c = none from rfl, Option.or_none]
    rw [fillDefaults_spec shape.nodup h, hgiven, hproto]
    rfl

theorem validateUpdate_spec {shape : TableShape} {table : JsString} {values : Record} {out : Out}
    (h : validateUpdate shape table values = .ok out) :
    (∀ c, out.own.lookup c = given values c) ∧ Accepted shape values := by
  unfold validateUpdate at h
  split at h
  · cases h
  · obtain ⟨-, hown, hacc⟩ := checkColumns_spec values.nodup (fun _ => rfl) h
    refine ⟨fun c => ?_, hacc⟩
    rw [hown, given, show Out.empty.own.lookup c = none from rfl, Option.or_none]

theorem TableShape.get_of_mem {shape : TableShape} {c : JsString} {f : Field}
    (h : (c, f) ∈ shape.entries) : shape.get c = some (.field f) := by
  unfold TableShape.get
  rw [(OrderedMap.mem_iff_lookup shape.nodup).1 h]

/-- What is given for a column is a value of its field. -/
theorem Accepted.check {shape : TableShape} {values : Record} (h : Accepted shape values)
    {c : JsString} {f : Field} (hf : (c, f) ∈ shape.entries) {v : Json}
    (hv : given values c = some v) : checkValue f (.json v) c = none := by
  unfold given at hv
  split at hv
  · cases hv
  · obtain ⟨found, hget, hcheck⟩ := h (c, v) ((OrderedMap.mem_iff_lookup values.nodup).2 hv)
    rw [TableShape.get_of_mem hf] at hget
    obtain rfl := Option.some.inj hget
    exact hcheck

/-! ## What a row may hold -/

/-- A column that `parseRow` need not find. A name that every object inherits is always found,
as a function or as `Object.prototype`. -/
def MayBeAbsent (c : JsString) (f : Field) : Prop :=
  if c = protoName then checkValue f .objectPrototype c = none
  else c ∉ objectPrototypeNames ∧ f.isOptional = true

/-- What may be written to a column. -/
def Kept (c : JsString) (f : Field) : Option Json → Prop
  | none => MayBeAbsent c f
  | some v =>
    if v.isNull = true ∨ c = protoName then MayBeAbsent c f else checkValue f (.json v) c = none

/-- The columns are read as they were written. -/
def RowKept (shape : TableShape) (m : JsString → Option Json) : Prop :=
  ∀ p ∈ shape.entries, Kept p.1 p.2 (m p.1)

/-- The row is there and `parseRow` accepts it. -/
def Reads (e : SyncEngine) (shape : TableShape) (table row : JsString) : Prop :=
  ∃ data, e.get table row = some (some data) ∧
    ∃ r, parseRow shape (.obj data.toList) = .ok r

/-- The columns have legal names, of which none is `id`, and their defaults are JSON. -/
structure Wellformed (shape : TableShape) : Prop where
  legal : ∀ p ∈ shape.entries, isName p.1 = true ∧ p.1 ≠ js "id"
  defaults : ∀ p ∈ shape.entries, ∀ v ∈ p.2.defaultValue, v.proper = true

/-- What is known of the values of a row. -/
structure Tabled (shape : TableShape) (m : JsString → Option Json) : Prop where
  known : ∀ {c : JsString}, m c ≠ none → (shape.get c).isSome = true
  proper : ∀ {c : JsString} {v : Json}, m c = some v → v.proper = true

theorem TableShape.get_tombstone {shape : TableShape} (hw : Wellformed shape) :
    shape.get tombstoneColumn = none := by
  have hnone : shape.entries.lookup tombstoneColumn = none := by
    refine OrderedMap.lookup_eq_none.2 fun hm => ?_
    obtain ⟨p, hp, he⟩ := List.mem_map.1 hm
    have hlegal := (hw.legal p hp).1
    rw [he] at hlegal
    exact absurd hlegal (by decide)
  unfold TableShape.get
  rw [hnone]
  exact if_neg (by decide)

theorem readBack_alike {cipher : Option Cipher} {v : Json} (h : v.proper = true) :
    Alike (.json (SyncEngine.readBack cipher v)) (.json v) := by
  cases cipher with
  | none => exact .refl _
  | some c => exact alike_normal h

/-- `parseRow` accepts a row without issues. -/
theorem parseRow_eq_ok {shape : TableShape} {fs : List (JsString × Json)} :
    (∃ r, parseRow shape (.obj fs) = .ok r) ↔
      keyIssues shape (.json (.obj fs)) = [] ∧ columnIssues shape (.json (.obj fs)) = [] := by
  unfold parseRow
  simp only
  rw [← List.append_eq_nil_iff, ← List.isEmpty_iff]
  cases List.isEmpty _ with
  | true => exact ⟨fun _ => rfl, fun _ => ⟨_, rfl⟩⟩
  | false => exact ⟨nofun, fun h => absurd h Bool.false_ne_true⟩

/-- No field takes a function. -/
theorem checkValue_function (f : Field) (path : JsString) : checkValue f .function path ≠ none := by
  cases f with
  | string fl =>
    have hne : js "function" ≠ js "string" := by decide
    simp [checkValue, Seen.isNull, Seen.describe, hne]
  | number fl => simp [checkValue, Seen.isNull]
  | boolean fl =>
    have hne : js "function" ≠ js "boolean" := by decide
    simp [checkValue, Seen.isNull, Seen.describe, hne]
  | array element fl => simp [checkValue, Seen.isNull]
  | object shape fl =>
    have hne : js "function" ≠ js "object" := by decide
    simp [checkValue, Seen.isNull, Seen.describe, hne]
  | enum values fl => simp [checkValue, Seen.isNull, EnumValue.matches]

variable {shape : TableShape} {m : JsString → Option Json} {cipher : Option Cipher}
  {data : SyncEngine.RowData}

/-- A column of a row that was read. -/
theorem columnIssue_eq_none (ht : Tabled shape m)
    (hget : ∀ c : JsString, c ≠ js "id" → data[c]? = (m c).bind (SyncEngine.shown cipher c))
    {c : JsString} {f : Field} (hid : c ≠ js "id") :
    columnIssue (.json (.obj data.toList)) c f = none ↔ Kept c f (m c) := by
  have hlookup : data.toList.lookup c = (m c).bind (SyncEngine.shown cipher c) := by
    rw [← hget c hid]
    ext v
    rw [← OrderedMap.mem_iff_lookup Std.ExtTreeMap.nodup_toList_keys,
      Std.ExtTreeMap.mem_toList_iff_getElem?_eq_some]
  -- a column that is not shown is looked for in what every object inherits
  have habsent : data.toList.lookup c = none →
      (columnIssue (.json (.obj data.toList)) c f = none ↔ MayBeAbsent c f) := by
    intro hnone
    unfold columnIssue Seen.read MayBeAbsent
    simp only [hnone]
    by_cases hp : c = protoName
    · simp only [if_pos hp, Option.map_eq_none_iff]
    · simp only [if_neg hp]
      by_cases hi : c ∈ objectPrototypeNames
      · have hbad := checkValue_function f c
        simp only [if_pos hi, Option.map_eq_none_iff]
        exact ⟨fun h => absurd h hbad, fun h => absurd hi h.1⟩
      · simp only [if_neg hi]
        cases f.isOptional <;> simp [hi]
  cases hm : m c with
  | none =>
    rw [hm] at hlookup
    exact habsent hlookup
  | some v =>
    have halike := @readBack_alike cipher v (ht.proper hm)
    have hnull : (SyncEngine.readBack cipher v).isNull = v.isNull := halike.isNull
    rw [hm, Option.bind_some, SyncEngine.shown, hnull] at hlookup
    by_cases hhide : v.isNull = true ∨ c = protoName
    · rw [Kept, if_pos hhide]
      exact habsent (hlookup.trans (if_pos hhide))
    · rw [Kept, if_neg hhide, ← checkValue_alike f halike c c]
      have hshown := hlookup.trans (if_neg hhide)
      unfold columnIssue Seen.read
      simp only [hshown, Option.map_eq_none_iff]

variable {e : SyncEngine} {table row : JsString}

/-- **A row is accepted exactly when something was written and its columns are kept.** -/
theorem reads_iff (hw : Wellformed shape) (ht : Tabled shape m)
    (h : SyncEngine.Holds e table row m) (hk : e.storage.Keyed) :
    Reads e shape table row ↔ (∃ c, m c ≠ none) ∧ RowKept shape m := by
  have htomb : m tombstoneColumn = none := by
    by_contra hne
    have hknown := ht.known hne
    rw [TableShape.get_tombstone hw] at hknown
    cases hknown
  by_cases hsome : ∃ c, m c ≠ none
  · obtain ⟨c, hc⟩ := hsome
    obtain ⟨data, hdata, hget⟩ := h.get hk htomb hc
    have hkeys : keyIssues shape (.json (.obj data.toList)) = [] := by
      refine List.filterMap_eq_nil_iff.2 fun key hkey => if_pos ?_
      by_cases hid : key = js "id"
      · exact .inl hid
      · obtain ⟨p, hp, rfl⟩ := List.mem_map.1 hkey
        have hp' := Std.ExtTreeMap.mem_toList_iff_getElem?_eq_some.1 hp
        rw [hget _ hid] at hp'
        refine .inr (ht.known fun hnone => ?_)
        rw [hnone] at hp'
        cases hp'
    have hcols : columnIssues shape (.json (.obj data.toList)) = [] ↔ RowKept shape m := by
      refine List.filterMap_eq_nil_iff.trans (forall₂_congr fun p hp => ?_)
      exact columnIssue_eq_none ht hget (hw.legal p hp).2
    have hparse : (∃ r, parseRow shape (.obj data.toList) = .ok r) ↔ RowKept shape m :=
      parseRow_eq_ok.trans ((and_iff_right hkeys).trans hcols)
    constructor
    · rintro ⟨data', hdata', hr⟩
      rw [hdata] at hdata'
      obtain rfl := Option.some.inj (Option.some.inj hdata')
      exact ⟨⟨c, hc⟩, hparse.1 hr⟩
    · exact fun hkept => ⟨data, hdata, hparse.2 hkept.2⟩
  · have hnone : ∀ c, m c = none := fun c => by
      by_contra hne
      exact hsome ⟨c, hne⟩
    constructor
    · rintro ⟨data, hdata, -⟩
      rw [SyncEngine.get_of_no_winners hk fun c => h.free (hnone c)] at hdata
      cases hdata
    · exact fun hkept => absurd hkept.1 hsome

/-! ## Updates -/

/-- No null is written to a column that may not be absent. -/
def UpdateKept (shape : TableShape) (values : Record) : Prop :=
  ∀ p ∈ shape.entries, ∀ v, given values p.1 = some v → v.isNull = true → MayBeAbsent p.1 p.2

/-- What is written to a column of a row that is kept. -/
theorem kept_update {values : Record} (hacc : Accepted shape values) (hm : RowKept shape m) :
    RowKept shape (fun c => (given values c).or (m c)) ↔ UpdateKept shape values := by
  constructor
  · intro h p hp v hv hnull
    have hkept : Kept p.1 p.2 ((given values p.1).or (m p.1)) := h p hp
    rw [hv, Option.some_or, Kept, if_pos (.inl hnull)] at hkept
    exact hkept
  · intro h p hp
    change Kept p.1 p.2 ((given values p.1).or (m p.1))
    cases hv : given values p.1 with
    | none =>
      rw [Option.none_or]
      exact hm p hp
    | some v =>
      rw [Option.some_or, Kept]
      have hproto : p.1 ≠ protoName := by
        intro he
        rw [given, if_pos he] at hv
        cases hv
      split
      · rename_i hhide
        exact h p hp v hv (hhide.resolve_right hproto)
      · exact hacc.check hp hv

theorem mem_of_given {values : Record} {c : JsString} {v : Json} (h : given values c = some v) :
    (c, v) ∈ values.entries := by
  unfold given at h
  split at h
  · cases h
  · exact (OrderedMap.mem_iff_lookup values.nodup).2 h

/-- What is given is known. -/
theorem tabled_given {values : Record} (hacc : Accepted shape values)
    (hv : ∀ p ∈ values.entries, p.2.proper = true) : Tabled shape (given values) where
  known {c} hne := by
    obtain ⟨v, hg⟩ := Option.ne_none_iff_exists'.1 hne
    obtain ⟨found, hfound, -⟩ := hacc _ (mem_of_given hg)
    rw [hfound]
    rfl
  proper hg := hv _ (mem_of_given hg)

theorem Tabled.or {w : JsString → Option Json} (hw : Tabled shape w) (ht : Tabled shape m) :
    Tabled shape fun c => (w c).or (m c) where
  known {c} hne := by
    cases hc : w c with
    | some v => exact hw.known (by rw [hc]; exact Option.some_ne_none v)
    | none =>
      rw [hc, Option.none_or] at hne
      exact ht.known hne
  proper {c v} hsome := by
    cases hc : w c with
    | some x =>
      rw [hc, Option.some_or] at hsome
      rw [← Option.some.inj hsome]
      exact hw.proper hc
    | none =>
      rw [hc, Option.none_or] at hsome
      exact ht.proper hsome

/-- What an insert writes is known. -/
theorem tabled_written {values : Record} (hw : Wellformed shape) (hacc : Accepted shape values)
    (hv : ∀ p ∈ values.entries, p.2.proper = true) : Tabled shape (written shape values) := by
  refine (tabled_given hacc hv).or ⟨fun {c} hne => ?_, fun {c v} hsome => ?_⟩
  · obtain ⟨v, hbind⟩ := Option.ne_none_iff_exists'.1 hne
    obtain ⟨f, hf, -⟩ := Option.bind_eq_some_iff.1 hbind
    unfold TableShape.get
    rw [hf]
    rfl
  · obtain ⟨f, hf, hdef⟩ := Option.bind_eq_some_iff.1 hsome
    split at hdef
    · cases hdef
    · exact hw.defaults (c, f) ((OrderedMap.mem_iff_lookup shape.nodup).2 hf) v hdef

variable {cr : Crypto}

/-- Updates of a row, each built by `validateUpdate`. -/
inductive Edited (cr : Crypto) (shape : TableShape) (table row : JsString) :
    SyncEngine → List Record → SyncEngine → Prop where
  | nil (e : SyncEngine) : Edited cr shape table row e [] e
  | cons {e e' : SyncEngine} {values : Record} {out : Out} {rest : List Record} :
      validateUpdate shape table values = .ok out →
      (e.update cr table row out.record).result = .ok () →
      Edited cr shape table row (e.update cr table row out.record).engine rest e' →
      Edited cr shape table row e (values :: rest) e'

theorem Edited.uncons {e' : SyncEngine} {values : Record} {rest : List Record}
    (h : Edited cr shape table row e (values :: rest) e') {out : Out}
    (hout : validateUpdate shape table values = .ok out) :
    Edited cr shape table row (e.update cr table row out.record).engine rest e' := by
  cases h with
  | cons hout' _ hrest =>
    rw [hout] at hout'
    obtain rfl := Except.ok.inj hout'
    exact hrest

/-- What the engine keeps while a row is updated. -/
structure Ready (cr : Crypto) (e : SyncEngine) : Prop where
  consistent : ∃ H, SyncEngine.Consistent cr e H
  cipher : ∀ c ∈ e.cipher, c.Inverts

/-- An update puts in the row what the validation built. -/
theorem Ready.update (hr : Ready cr e) (hw : Wellformed shape) (h : SyncEngine.Holds e table row m)
    {out : Out} {w : JsString → Option Json} (hown : ∀ c, out.own.lookup c = w c)
    (ht : Tabled shape w) (hok : (e.update cr table row out.record).result = .ok ()) :
    Ready cr (e.update cr table row out.record).engine ∧
      SyncEngine.Holds (e.update cr table row out.record).engine table row
        fun c => (w c).or (m c) := by
  obtain ⟨H, hc⟩ := hr.consistent
  have htomb : tombstoneColumn ∉ out.record.entries.map Prod.fst := by
    refine OrderedMap.lookup_eq_none.1 ((hown _).trans ?_)
    by_contra hne
    have hknown := ht.known hne
    rw [TableShape.get_tombstone hw] at hknown
    cases hknown
  obtain ⟨hc', hcipher, hholds⟩ := h.update hc hr.cipher htomb hok
  refine ⟨⟨⟨_, hc'⟩, by rw [hcipher]; exact hr.cipher⟩, ?_⟩
  have hfun : (fun c => (out.record.entries.lookup c).or (m c)) = fun c => (w c).or (m c) :=
    funext fun c => by
      rw [← hown]
      rfl
  rwa [hfun] at hholds

/-- **Updates are read back exactly when each keeps its columns.** -/
theorem Edited.reads_iff {e' : SyncEngine} {edits : List Record}
    (h : Edited cr shape table row e edits e') (hw : Wellformed shape)
    (hproper : ∀ u ∈ edits, ∀ p ∈ u.entries, p.2.proper = true) (hr : Ready cr e)
    (hholds : SyncEngine.Holds e table row m) (ht : Tabled shape m) :
    (∀ us e₁, us <+: edits → Edited cr shape table row e us e₁ → Reads e₁ shape table row) ↔
      Reads e shape table row ∧ ∀ u ∈ edits, UpdateKept shape u := by
  induction h generalizing m with
  | nil e =>
    constructor
    · exact fun h => ⟨h [] e ⟨[], rfl⟩ (.nil e), nofun⟩
    · rintro ⟨hreads, -⟩ us e₁ hus hed
      obtain rfl := List.prefix_nil.1 hus
      cases hed
      exact hreads
  | @cons e e' values out rest hout hok hrest ih =>
    obtain ⟨hown, hacc⟩ := validateUpdate_spec hout
    have hv := hproper values List.mem_cons_self
    have hgiven := tabled_given hacc hv
    obtain ⟨hr', hholds'⟩ := hr.update hw hholds hown hgiven hok
    have ht' := hgiven.or ht
    have hih := ih (fun u hu => hproper u (List.mem_cons_of_mem _ hu)) hr' hholds' ht'
    obtain ⟨H, hc⟩ := hr.consistent
    obtain ⟨H', hc'⟩ := hr'.consistent
    have hnow := reads_iff hw ht hholds hc.ledger.keyed
    have hnext := reads_iff hw ht' hholds' hc'.ledger.keyed
    have hsplit : (∀ us e₁, us <+: values :: rest → Edited cr shape table row e us e₁ →
        Reads e₁ shape table row) ↔ Reads e shape table row ∧
        ∀ us e₁, us <+: rest → Edited cr shape table row
          (e.update cr table row out.record).engine us e₁ → Reads e₁ shape table row := by
      constructor
      · intro h
        exact ⟨h [] e ⟨_, rfl⟩ (.nil e), fun us e₁ hus hed =>
          h (values :: us) e₁ (List.cons_prefix_cons.2 ⟨rfl, hus⟩) (.cons hout hok hed)⟩
      · rintro ⟨hreads, h⟩ us e₁ hus hed
        cases us with
        | nil => cases hed; exact hreads
        | cons u us =>
          obtain ⟨rfl, hus'⟩ := List.cons_prefix_cons.1 hus
          exact h us e₁ hus' (hed.uncons hout)
    rw [hsplit, hih, List.forall_mem_cons]
    constructor
    · rintro ⟨hreads, hreads', hkept⟩
      exact ⟨hreads, (kept_update hacc (hnow.1 hreads).2).1 (hnext.1 hreads').2, hkept⟩
    · rintro ⟨hreads, hkept, hrest⟩
      obtain ⟨⟨c, hc⟩, hm⟩ := hnow.1 hreads
      refine ⟨hreads, hnext.2 ⟨⟨c, ?_⟩, (kept_update hacc hm).2 hkept⟩, hrest⟩
      rw [ne_eq, Option.or_eq_none_iff]
      exact fun h => hc h.2

/-! ## Inserts -/

/-- Something is written, and what is written keeps its columns. -/
def InsertKept (shape : TableShape) (values : Record) : Prop :=
  (∃ c, written shape values c ≠ none) ∧ RowKept shape (written shape values)

/-- An insert is an update of the row that it returns. -/
theorem insert_eq_ok {values : Record} (h : (e.insert cr table values).result = .ok row) :
    (({ e with asked := e.asked + 2 } : SyncEngine).update cr table row values).result = .ok () ∧
      (e.insert cr table values).engine =
        (({ e with asked := e.asked + 2 } : SyncEngine).update cr table row values).engine := by
  unfold SyncEngine.insert at h ⊢
  simp only at h ⊢
  split at h
  · cases h
  · rename_i row' hulid
    simp only [Reply.map] at h ⊢
    cases hu : (({ e with asked := e.asked + 2 } : SyncEngine).update cr table row' values).result with
    | error err => rw [hu] at h; cases h
    | ok u =>
      rw [hu] at h
      obtain rfl := Except.ok.inj h
      exact ⟨hu, rfl⟩

/-- **What the schema accepts on write, it accepts on read.** A row is inserted as
`validateInsert` built it and updated as `validateUpdate` built the updates. It is there and
`parseRow` accepts it, after the insert and after every update, if and only if the insert
writes something and neither it nor an update writes, to a column that may not be absent, a
`null`, nothing at all, or a default that its field does not take. -/
theorem accepted_on_read_iff (cr : Crypto) (opts : EngineOptions) (seed : Nat)
    (acts : List Replica.Action) {ae : Aead} (hae : ae.Sound) {shape : TableShape}
    (hw : Wellformed shape) {table row : JsString} {values : Record}
    (hv : ∀ p ∈ values.entries, p.2.proper = true) {out : Out}
    (hout : validateInsert shape table values = .ok out) :
    let e := (Runs.run (Replica.step cr) (Replica.start cr opts seed) acts).engine
    (∀ c ∈ e.cipher, ∃ s : SpaceCipher, c = s.cipher ae) →
    (e.insert cr table out.record).result = .ok row →
    (∀ c, e.storage.winner (table, row, c) = none) →
    ∀ edits e', (∀ u ∈ edits, ∀ p ∈ u.entries, p.2.proper = true) →
      Edited cr shape table row (e.insert cr table out.record).engine edits e' →
      ((∀ us e₁, us <+: edits →
          Edited cr shape table row (e.insert cr table out.record).engine us e₁ →
          Reads e₁ shape table row) ↔
        InsertKept shape values ∧ ∀ u ∈ edits, UpdateKept shape u) := by
  intro e hcipher hins hfresh edits e' hproper hed
  obtain ⟨H, hc⟩ : ∃ H, SyncEngine.Consistent cr e H :=
    ⟨_, Replica.consistent_run cr opts seed acts⟩
  clear_value e
  obtain ⟨hown, hacc⟩ := validateInsert_spec hout
  have ht := tabled_written hw hacc hv
  obtain ⟨hok, heng⟩ := insert_eq_ok hins
  have hready : Ready cr { e with asked := e.asked + 2 } := {
    consistent := ⟨_, SyncEngine.Consistent.effect hc
      (SyncEngine.Effect.idle (d := .write) hc.identity (.asked e (e.asked + 2)))⟩
    cipher := fun c hm => by
      obtain ⟨s, rfl⟩ := hcipher c hm
      exact s.inverts hae }
  obtain ⟨hready', hholds⟩ := hready.update (m := fun _ => none) hw
    ⟨fun _ => hfresh _, nofun⟩ hown ht hok
  simp only [Option.or_none] at hholds
  rw [← heng] at hready' hholds
  obtain ⟨K, hc'⟩ := hready'.consistent
  rw [hed.reads_iff hw hproper hready' hholds ht, reads_iff hw ht hholds hc'.ledger.keyed]
  rfl

/-- A table with a title and a note. -/
def sampleShape (note : Field) : TableShape where
  entries := [(js "title", Builders.string), (js "note", note)]
  nodup := by
    change [js "title", js "note"].Nodup
    decide

def sampleRecord (column : JsString) (v : Json) : Record := ⟨[(column, v)], List.nodup_singleton _⟩

/-- The row that the first sample device inserts. -/
def sampleRow (out : Out) : JsString :=
  match ((SyncEngine.opened plainCrypto Sample.opts 1).insert plainCrypto Sample.table
    out.record).result with
  | .ok row => row
  | .error _ => []

/-- A title is inserted, then the note that may be absent is set to null. -/
theorem accepted_on_read_iff_sample :
    ∃ e', Edited plainCrypto (sampleShape Builders.string.nullable.optional) Sample.table
        (sampleRow (Out.empty.assign (js "title") (.str (js "a"))))
        ((SyncEngine.opened plainCrypto Sample.opts 1).insert plainCrypto Sample.table
          (Out.empty.assign (js "title") (.str (js "a"))).record).engine
        [sampleRecord (js "note") .null] e' ∧
      Reads e' (sampleShape Builders.string.nullable.optional) Sample.table
        (sampleRow (Out.empty.assign (js "title") (.str (js "a")))) := by
  have hed : Edited plainCrypto (sampleShape Builders.string.nullable.optional) Sample.table
      (sampleRow (Out.empty.assign (js "title") (.str (js "a"))))
      ((SyncEngine.opened plainCrypto Sample.opts 1).insert plainCrypto Sample.table
        (Out.empty.assign (js "title") (.str (js "a"))).record).engine
      [sampleRecord (js "note") .null] _ :=
    @Edited.cons _ _ _ _ _ _ _ (Out.empty.assign (js "note") .null) _ rfl (by decide +kernel)
      (.nil _)
  refine ⟨_, hed, ?_⟩
  have hnote : MayBeAbsent (js "note") Builders.string.nullable.optional := by
    unfold MayBeAbsent
    rw [if_neg (by decide)]
    exact ⟨by decide, rfl⟩
  have hw : Wellformed (sampleShape Builders.string.nullable.optional) :=
    ⟨by decide +kernel, fun p hp v hv => by
      simp only [sampleShape, List.mem_cons, List.not_mem_nil, or_false] at hp
      rcases hp with rfl | rfl <;> cases hv⟩
  have htitle : ∀ p ∈ (sampleRecord (js "title") (.str (js "a"))).entries, p.2.proper = true :=
    fun p hp => by rw [List.mem_singleton.1 hp]; rfl
  have hnull : ∀ u ∈ [sampleRecord (js "note") .null], ∀ p ∈ u.entries, p.2.proper = true :=
    fun u hu p hp => by
      rw [List.mem_singleton.1 hu] at hp
      rw [List.mem_singleton.1 hp]
      rfl
  have hall := @accepted_on_read_iff plainCrypto Sample.opts 1 [] plainAead plainAead_sound
    _ hw Sample.table (sampleRow (Out.empty.assign (js "title") (.str (js "a"))))
    (sampleRecord (js "title") (.str (js "a"))) htitle
    (Out.empty.assign (js "title") (.str (js "a"))) rfl nofun (by decide +kernel)
    (fun c => MemoryAdapter.winner_empty _) _ _ hnull hed
  refine hall.2 ⟨⟨⟨js "title", nofun⟩, ?_⟩, List.forall_mem_singleton.2 ?_⟩ _ _ ⟨[], rfl⟩ hed
  · refine List.forall_mem_cons.2 ⟨?_, List.forall_mem_singleton.2 hnote⟩
    have hkept : Kept (js "title") Builders.string (some (.str (js "a"))) := by
      have hwrite : ¬ ((Json.str (js "a")).isNull = true ∨ js "title" = protoName) := by decide
      simp only [Kept, if_neg hwrite]
      rfl
    exact hkept
  · refine List.forall_mem_cons.2 ⟨nofun, List.forall_mem_singleton.2 fun _ _ _ => hnote⟩

/-- A title and a note that is null. -/
def nullNote : Out := (Out.empty.assign (js "title") (.str (js "a"))).assign (js "note") .null

/-- A null in a column that is nullable but not optional is accepted, and its row is not. -/
theorem null_not_accepted_on_read :
    validateInsert (sampleShape Builders.string.nullable) Sample.table nullNote.record =
      .ok nullNote ∧
    (let r := (SyncEngine.opened plainCrypto Sample.opts 1).insert plainCrypto Sample.table
      nullNote.record
    r.result = .ok (sampleRow nullNote) ∧
      ¬ Reads r.engine (sampleShape Builders.string.nullable) Sample.table
        (sampleRow nullNote)) := by
  refine ⟨rfl, ?_⟩
  intro r
  refine ⟨by decide +kernel, ?_⟩
  rintro ⟨data, hdata, row, hrow⟩
  have hissue : ((r.engine.get Sample.table (sampleRow nullNote)).bind id).map (fun data =>
      (parseRow (sampleShape Builders.string.nullable) (.obj data.toList)).isOk) = some false := by
    decide +kernel
  rw [hdata] at hissue
  simp only [Option.bind_some, id, Option.map_some, hrow] at hissue
  cases hissue

end TangentFeed.Schema
