import TangentFeed.Core.SpaceCipher
import TangentFeed.Replica.ClockSafety
import TangentFeed.Replica.Reads

/-!
# What a row holds

A local write stores each value as it is or encrypted, and `get` decrypts the
cells of a row and leaves out the ones that are null. `Holds` says what was
written to the cells of a row; a local update puts its columns there, and `get`
returns what the row holds.
-/

namespace TangentFeed

variable {cr : Crypto}

namespace SyncEngine

variable {e : SyncEngine}

/-! ## What a local write stores -/

/-- How a local write stores a value. -/
def StoredAs (cipher : Option Cipher) (column : JsString) (value : Json) (o : Op) : Prop :=
  match cipher with
  | none => o.value = value
  | some c =>
    if column = tombstoneColumn then o.value = value
    else ∃ random, o.value = .str (c.encrypt random value o.id)

theorem makeLocalOp_stored {table row column : JsString} {value : Json} {op : Op}
    (h : (e.makeLocalOp cr table row column value).1 = .ok op) :
    StoredAs e.cipher column value op := by
  unfold makeLocalOp at h
  simp only at h
  split at h
  · cases h
  · rename_i t ht
    unfold storedValue at h
    unfold StoredAs
    cases hc : e.cipher with
    | none =>
      simp only [hc] at h ⊢
      split at h
      · cases h
      · obtain rfl := Except.ok.inj h
        rfl
    | some c =>
      simp only [hc] at h ⊢
      by_cases htomb : column = tombstoneColumn
      · simp only [if_pos htomb] at h ⊢
        split at h
        · cases h
        · obtain rfl := Except.ok.inj h
          rfl
      · simp only [if_neg htomb] at h ⊢
        split at h
        · cases h
        · obtain rfl := Except.ok.inj h
          exact ⟨_, rfl⟩

/-- The operations of a local write store its values. -/
theorem makeLocalOps_stored {table row : JsString} {values : List (JsString × Json)} {ops : List Op}
    (h : (e.makeLocalOps cr table row values).1 = .ok ops) :
    List.Forall₂ (fun o v => StoredAs e.cipher v.1 v.2 o) ops values := by
  induction values generalizing e ops with
  | nil =>
    obtain rfl := Except.ok.inj h
    exact .nil
  | cons v values ih =>
    obtain ⟨column, value⟩ := v
    unfold makeLocalOps at h
    have hmove := makeLocalOp_moved cr e table row column value
    simp only at h
    cases hr : (e.makeLocalOp cr table row column value).1 with
    | error err => simp only [hr] at h; cases h
    | ok op =>
      simp only [hr] at h
      cases hrs : ((e.makeLocalOp cr table row column value).2.makeLocalOps cr table row values).1 with
      | error err => rw [hrs] at h; cases h
      | ok rest =>
        rw [hrs] at h
        obtain rfl := Except.ok.inj h
        refine .cons (makeLocalOp_stored hr) ?_
        rw [← hmove.cipher]
        exact ih hrs

/-- What is read of a value that was written. -/
def readBack (cipher : Option Cipher) (v : Json) : Json :=
  match cipher with
  | none => v
  | some _ => v.normal

theorem plain_of_storedAs {cipher : Option Cipher} (hc : ∀ c ∈ cipher, c.Inverts)
    {column : JsString} (hcol : column ≠ tombstoneColumn) {value : Json} {o : Op}
    (h : StoredAs cipher column value o) : plain cipher o = some (readBack cipher value) := by
  cases cipher with
  | none => exact congrArg some h
  | some c =>
    obtain ⟨random, hv⟩ : ∃ random, o.value = .str (c.encrypt random value o.id) := by
      have hstored : if column = tombstoneColumn then o.value = value
          else ∃ random, o.value = .str (c.encrypt random value o.id) := h
      rwa [if_neg hcol] at hstored
    have hi := hc c rfl
    unfold plain readBack
    rw [hv]
    exact (if_pos (hi.marked random value o.id)).trans (hi.decrypt_encrypt random value o.id)

/-! ## Reading a row -/

/-- What `get` shows of a cell. -/
def shownCell (cipher : Option Cipher) (column : JsString) (o : Op) : Option Json :=
  if column = tombstoneColumn then none
  else (plain cipher o).bind fun v => if v.isNull ∨ column = js "__proto__" then none else some v

theorem materializeCells_spec {cipher : Option Cipher} {l : List (JsString × Op)}
    (hn : (l.map Prod.fst).Nodup)
    (hp : ∀ p ∈ l, p.1 ≠ tombstoneColumn → plain cipher p.2 ≠ none) (out : RowData) :
    ∃ data, materializeCells cipher l out = some data ∧
      ∀ c : JsString, data[c]? = ((l.lookup c).bind (shownCell cipher c)).or out[c]? := by
  induction l generalizing out with
  | nil => exact ⟨out, rfl, fun c => rfl⟩
  | cons p l ih =>
    obtain ⟨column, o⟩ := p
    rw [List.map_cons, List.nodup_cons] at hn
    have hrest := fun q hq => hp q (List.mem_cons_of_mem _ hq)
    have hnone : l.lookup column = none := OrderedMap.lookup_eq_none.2 hn.1
    -- what this cell shows is put in the row before the others
    have hput : ∀ {out' : RowData},
        (∀ c : JsString, out'[c]? =
          if c = column then (shownCell cipher column o).or out[c]? else out[c]?) →
        ∃ data, materializeCells cipher l out' = some data ∧ ∀ c : JsString, data[c]? =
          ((((column, o) :: l).lookup c).bind (shownCell cipher c)).or out[c]? := by
      intro out' hout
      obtain ⟨data, hd, hget⟩ := ih hn.2 hrest out'
      refine ⟨data, hd, fun c => ?_⟩
      rw [hget, hout, List.lookup_cons]
      by_cases hc : c = column
      · subst hc
        rw [if_pos rfl, hnone, beq_self_eq_true]
        rfl
      · rw [if_neg hc, beq_eq_false_iff_ne.2 hc]
    unfold materializeCells
    by_cases htomb : column = tombstoneColumn
    · rw [if_pos htomb]
      refine hput fun c => ?_
      rw [shownCell, if_pos htomb, Option.none_or, ite_self]
    · rw [if_neg htomb]
      cases hv : plain cipher o with
      | none => exact absurd hv (hp (column, o) List.mem_cons_self htomb)
      | some v =>
        refine hput fun c => ?_
        rw [shownCell, if_neg htomb, hv, Option.bind_some]
        by_cases hhide : v.isNull = true ∨ column = js "__proto__"
        · rw [if_pos hhide, if_pos hhide, Option.none_or, ite_self]
        · rw [if_neg hhide, if_neg hhide, Std.ExtTreeMap.getElem?_insert_eq, Option.some_or]
          by_cases hc : c = column
          · rw [if_pos hc, if_pos hc.symm]
          · rw [if_neg hc, if_neg (Ne.symm hc)]

/-- **A row that is there and not tombstoned.** -/
theorem get_of_cells {table row : JsString} (hk : e.storage.Keyed)
    (hsome : ∃ c o, e.storage.winner (table, row, c) = some o)
    (hlive : ∀ o, e.storage.winner (table, row, tombstoneColumn) = some o → o.value.isTrue = false)
    (hp : ∀ c o, e.storage.winner (table, row, c) = some o → c ≠ tombstoneColumn →
      plain e.cipher o ≠ none) :
    ∃ data, e.get table row = some (some data) ∧ ∀ c : JsString, data[c]? =
      ((e.storage.winner (table, row, c)).bind (shownCell e.cipher c)).or
        (if c = js "id" then some (.str row) else none) := by
  obtain ⟨c, o, hw⟩ := hsome
  cases hr : e.storage.getRow table row with
  | none => rw [(getRow_eq_none hk).1 hr c] at hw; cases hw
  | some cells =>
    have hcell : ∀ c : JsString, cells[c]? = e.storage.winner (table, row, c) := fun c => by
      rw [← getRow_getElem?, hr]
      rfl
    have hlookup : ∀ c : JsString, cells.toList.lookup c = cells[c]? := fun c => by
      ext o
      rw [← OrderedMap.mem_iff_lookup Std.ExtTreeMap.nodup_toList_keys,
        Std.ExtTreeMap.mem_toList_iff_getElem?_eq_some]
    obtain ⟨data, hdata, hget⟩ := @materializeCells_spec e.cipher cells.toList
      Std.ExtTreeMap.nodup_toList_keys (fun p hm => by
        have hm' := Std.ExtTreeMap.mem_toList_iff_getElem?_eq_some.1 hm
        rw [hcell] at hm'
        exact hp p.1 p.2 hm') ∅
    have hlive' : isTombstoned cells = false := by
      unfold isTombstoned
      rw [hcell]
      cases ht : e.storage.winner (table, row, tombstoneColumn) with
      | none => rfl
      | some o => exact hlive o ht
    have hd : ∀ c : JsString, data[c]? =
        (e.storage.winner (table, row, c)).bind (shownCell e.cipher c) := fun c => by
      rw [hget, hlookup, hcell, Std.ExtTreeMap.getElem?_empty, Option.or_none]
    simp only [← hd]
    unfold get
    rw [hr]
    simp only [hlive', Bool.false_eq_true, if_false]
    unfold materialize
    rw [hdata]
    cases hid : data[js "id"]? with
    | some v =>
      refine ⟨data, by simp only [Option.map_some, hid], fun c => ?_⟩
      by_cases hc : c = js "id"
      · rw [if_pos hc, hc, hid]
        rfl
      · rw [if_neg hc, Option.or_none]
    | none =>
      refine ⟨data.insert (js "id") (.str row), by simp only [Option.map_some, hid], fun c => ?_⟩
      rw [Std.ExtTreeMap.getElem?_insert_eq]
      by_cases hc : c = js "id"
      · rw [if_pos hc.symm, if_pos hc, hc, hid, Option.none_or]
      · rw [if_neg (Ne.symm hc), if_neg hc, Option.or_none]

/-! ## What a row holds -/

/-- The cells of the row hold what `m` says was written to their columns. -/
structure Holds (e : SyncEngine) (table row : JsString) (m : JsString → Option Json) : Prop where
  free : ∀ {c : JsString}, m c = none → e.storage.winner (table, row, c) = none
  held : ∀ {c : JsString} {v : Json}, m c = some v →
    ∃ o, e.storage.winner (table, row, c) = some o ∧ plain e.cipher o = some (readBack e.cipher v)

/-- What `get` shows of what was written to a column. -/
def shown (cipher : Option Cipher) (column : JsString) (v : Json) : Option Json :=
  if (readBack cipher v).isNull ∨ column = js "__proto__" then none else some (readBack cipher v)

variable {table row : JsString} {m : JsString → Option Json}

/-- **A row is read as it was written.** -/
theorem Holds.get (h : Holds e table row m) (hk : e.storage.Keyed)
    (htomb : m tombstoneColumn = none) {c : JsString} (hc : m c ≠ none) :
    ∃ data, e.get table row = some (some data) ∧
      ∀ c : JsString, c ≠ js "id" → data[c]? = (m c).bind (shown e.cipher c) := by
  have hcell : ∀ c o, e.storage.winner (table, row, c) = some o → ∃ v, m c = some v ∧
      plain e.cipher o = some (readBack e.cipher v) := by
    intro c o ho
    cases hm : m c with
    | none => rw [h.free hm] at ho; cases ho
    | some v =>
      obtain ⟨o', ho', hp⟩ := h.held hm
      rw [ho] at ho'
      obtain rfl := Option.some.inj ho'
      exact ⟨v, rfl, hp⟩
  obtain ⟨v, hv⟩ := Option.ne_none_iff_exists'.1 hc
  obtain ⟨o, ho, -⟩ := h.held hv
  obtain ⟨data, hdata, hget⟩ := get_of_cells hk ⟨c, o, ho⟩ (fun o ho => by
    rw [h.free htomb] at ho
    cases ho) (fun c o ho _ => by
    obtain ⟨v, -, hp⟩ := hcell c o ho
    rw [hp]
    exact Option.some_ne_none _)
  refine ⟨data, hdata, fun c hid => ?_⟩
  rw [hget, if_neg hid, Option.or_none]
  cases hm : m c with
  | none => rw [h.free hm]; rfl
  | some v =>
    obtain ⟨o, ho, hp⟩ := h.held hm
    have hne : c ≠ tombstoneColumn := by
      rintro rfl
      rw [htomb] at hm
      cases hm
    rw [ho, Option.bind_some, Option.bind_some, shownCell, if_neg hne, hp]
    rfl

/-- A local update that goes through commits the operations it made. -/
theorem update_eq_ok {values : Record} (h : (e.update cr table row values).result = .ok ()) :
    ∃ ops, (e.makeLocalOps cr table row values.entries).1 = .ok ops ∧
      (e.update cr table row values).event = some (changeEvent ops .local) := by
  unfold update at h ⊢
  cases hmade : (e.makeLocalOps cr table row values.entries).1 with
  | error err => simp only [hmade] at h; cases h
  | ok ops =>
    simp only [hmade] at h ⊢
    refine ⟨ops, rfl, ?_⟩
    rcases (e.makeLocalOps cr table row values.entries).2.commit_cases ops .local with hr | hr
    · rw [hr] at h; cases h
    · rw [hr]

/-- A local update leaves the cells that it does not write. -/
theorem winner_update {H : Set Op} (hc : Consistent cr e H) {values : Record}
    (hok : (e.update cr table row values).result = .ok ()) {k : Cell}
    (hk : ∀ v ∈ values.entries, (table, row, v.1) ≠ k) :
    (e.update cr table row values).engine.storage.winner k = e.storage.winner k := by
  obtain ⟨ops, -, hev⟩ := update_eq_ok hok
  obtain ⟨mid, ops', -, -, hevent, hcells, hstore⟩ := update_event hc.identity hev
  have hnot : ∀ o ∈ ops', o.cell ≠ k := by
    intro o ho hcell
    have hm : k ∈ ops'.map Op.cell := hcell ▸ List.mem_map_of_mem ho
    rw [hcells] at hm
    obtain ⟨v, hv, he⟩ := List.mem_map.1 hm
    exact hk v hv he
  rw [hstore, winner_commit hc.ledger.keyed, Lww.putAll_of_ne hnot]

/-- **A local update puts its columns in the row.** -/
theorem Holds.update {H : Set Op} (h : Holds e table row m) (hc : Consistent cr e H)
    (hcipher : ∀ c ∈ e.cipher, c.Inverts) {values : Record}
    (htomb : tombstoneColumn ∉ values.entries.map Prod.fst)
    (hok : (e.update cr table row values).result = .ok ()) :
    Consistent cr (e.update cr table row values).engine
        (H ∪ eventOps (e.update cr table row values).event) ∧
      (e.update cr table row values).engine.cipher = e.cipher ∧
      Holds (e.update cr table row values).engine table row
        fun c => (values.entries.lookup c).or (m c) := by
  have heff := Effect.update hc.identity (Moved.refl e) table row values
  obtain ⟨ops, hmade, hev⟩ := update_eq_ok hok
  obtain ⟨mid, ops', -, hb, hevent, hcells, hstore⟩ := update_event hc.identity hev
  obtain rfl : ops = ops' := congrArg ChangeEvent.ops hevent
  have hstored := makeLocalOps_stored hmade
  refine ⟨hc.effect heff, heff.cipher, ?_⟩
  have hnodup : (ops.map Op.cell).Nodup := by
    have hnames : (values.entries.map fun v => (table, row, v.1)) =
        (values.entries.map Prod.fst).map fun c => (table, row, c) := by
      rw [List.map_map]
      rfl
    rw [hcells, hnames]
    exact values.nodup.map fun a b h => congrArg (·.2.2) h
  have hkeep : ∀ c, values.entries.lookup c = none →
      (e.update cr table row values).engine.storage.winner (table, row, c) =
        e.storage.winner (table, row, c) := by
    intro c hnone
    refine winner_update hc hok fun v hv he => ?_
    obtain rfl : v.1 = c := congrArg (·.2.2) he
    exact OrderedMap.lookup_eq_none.1 hnone (List.mem_map_of_mem hv)
  constructor
  · intro c hnone
    rw [Option.or_eq_none_iff] at hnone
    rw [hkeep c hnone.1]
    exact h.free hnone.2
  · intro c v hsome
    rw [heff.cipher]
    cases hv : values.entries.lookup c with
    | some w =>
      rw [hv, Option.some_or] at hsome
      obtain rfl := Option.some.inj hsome
      have hmem := (OrderedMap.mem_iff_lookup values.nodup).2 hv
      obtain ⟨i, hi, hget⟩ := List.getElem_of_mem hmem
      have hlen : ops.length = values.entries.length := hstored.length_eq
      have ho : ops[i] ∈ ops := List.getElem_mem (by omega)
      have hcell : ops[i].cell = (table, row, c) := by
        have hget' : (ops.map Op.cell)[i]? = some (table, row, c) := by
          rw [hcells, List.getElem?_map, List.getElem?_eq_getElem hi, hget]
          rfl
        rw [List.getElem?_map, List.getElem?_eq_getElem (by omega)] at hget'
        exact Option.some.inj hget'
      have hst := hstored.get (i := i) (by omega) hi
      rw [List.get_eq_getElem, List.get_eq_getElem, hget] at hst
      refine ⟨ops[i], ?_, plain_of_storedAs hcipher ?_ hst⟩
      · rw [hstore, ← hcell]
        exact hc.local_wins hb ho fun p hp h => List.inj_on_of_nodup_map hnodup hp ho h
      · rintro rfl
        exact htomb (List.mem_map_of_mem (f := Prod.fst) hmem)
    | none =>
      rw [hv, Option.none_or] at hsome
      rw [hkeep c hv]
      exact h.held hsome

end SyncEngine

end TangentFeed
