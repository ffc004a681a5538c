import TangentFeed.Core.Op
import TangentFeed.Lib.Lww
import TangentFeed.Lib.NestedMap

/-!
# The in-memory storage adapter

`MemoryAdapter` holds the op log and the materialised cells, a nested map from
table, row and column to the winning operation. A batch names cells by
`cellKey`, the three names joined by U+0000; `splitKey` takes such a key apart.
No name of a valid operation contains U+0000, so the two are inverse there.
-/

namespace TangentFeed

abbrev Cell := JsString × JsString × JsString

def cellKey (table row column : JsString) : JsString := table ++ sep :: row ++ sep :: column

/-- `key.split(SEP)`. -/
def splitSep : JsString → List JsString
  | [] => [[]]
  | c :: rest =>
    if c = sep then [] :: splitSep rest
    else
      match splitSep rest with
      | [] => [[c]]
      | part :: parts => (c :: part) :: parts

/-- `const [table, row, column] = key.split(SEP)`. -/
def splitKey (key : JsString) : Cell :=
  let parts := splitSep key
  (parts[0]?.getD [], parts[1]?.getD [], parts[2]?.getD [])

/-- A cell none of whose names contains the separator. -/
structure Legal (c : Cell) : Prop where
  table : sep ∉ c.1
  row : sep ∉ c.2.1
  column : sep ∉ c.2.2

theorem splitSep_of_not_mem {a : JsString} (h : sep ∉ a) : splitSep a = [a] := by
  induction a with
  | nil => rfl
  | cons c a ih =>
    rw [List.mem_cons, not_or] at h
    rw [splitSep, if_neg (Ne.symm h.1), ih h.2]

theorem splitSep_append {a b : JsString} (h : sep ∉ a) :
    splitSep (a ++ sep :: b) = a :: splitSep b := by
  induction a with
  | nil => rw [List.nil_append, splitSep, if_pos rfl]
  | cons c a ih =>
    rw [List.mem_cons, not_or] at h
    rw [List.cons_append, splitSep, if_neg (Ne.symm h.1), ih h.2]

theorem splitKey_cellKey {c : Cell} (h : Legal c) : splitKey (cellKey c.1 c.2.1 c.2.2) = c := by
  unfold splitKey cellKey
  rw [List.append_assoc, List.cons_append, splitSep_append h.table, splitSep_append h.row,
    splitSep_of_not_mem h.column]
  rfl

theorem cellKey_inj {c d : Cell} (hc : Legal c) (hd : Legal d)
    (h : cellKey c.1 c.2.1 c.2.2 = cellKey d.1 d.2.1 d.2.2) : c = d := by
  rw [← splitKey_cellKey hc, h, splitKey_cellKey hd]

theorem isNameUnit_ne_sep {c : CodeUnit} (h : isNameUnit c = true) : sep ≠ c := by
  rintro rfl
  revert h
  decide

theorem isName_sep {s : JsString} (h : isName s = true) : sep ∉ s := by
  cases s with
  | nil => exact List.not_mem_nil
  | cons c rest =>
    simp only [isName, Bool.and_eq_true, List.all_eq_true] at h
    obtain ⟨⟨h1, -⟩, h2⟩ := h
    rintro (_ | ⟨_, hm⟩)
    · revert h1; decide
    · exact isNameUnit_ne_sep (h2 _ hm) rfl

theorem isUlid_sep {s : JsString} (h : isUlid s = true) : sep ∉ s := by
  simp only [isUlid, Bool.and_eq_true, List.all_eq_true] at h
  intro hm
  have := h.2 _ hm
  revert this
  decide

theorem Op.legal (o : Op) : Legal o.cell where
  table := isName_sep o.isValid.table
  row := isUlid_sep o.isValid.row
  column := by
    rcases o.isValid.column with h | h
    · have e : o.cell.2.2 = tombstoneColumn := h
      rw [e]
      decide
    · exact isName_sep h

/-! ## The adapter -/

structure ClockState where
  millis : Nat
  counter : Nat
  deriving DecidableEq, Repr

/-- A batch as the engine hands it over; `winners` is keyed by `cellKey`. -/
structure BatchWrite where
  ops : List Op
  winners : JsMap Op
  frontier : Frontier
  clock : ClockState

/-- What a compaction removes. -/
structure CompactionWrite where
  opIds : List JsString
  cellKeys : List JsString

structure MemoryAdapter where
  opsById : JsMap Op
  /-- table → row → column → winning op -/
  tables : NestedMap JsString JsString JsString Op
  frontier : Frontier
  clock : Option ClockState
  deviceKey : Option DeviceKey
  peerFrontiers : JsMap Frontier

namespace MemoryAdapter

def empty : MemoryAdapter := ⟨∅, ∅, ∅, none, none, ∅⟩

def getRow (s : MemoryAdapter) (table row : JsString) : Option (JsMap Op) :=
  s.tables[table]?.bind fun rows => rows[row]?

def listRows (s : MemoryAdapter) (table : JsString) : List JsString :=
  match s.tables[table]? with
  | none => []
  | some rows => rows.keys

def listTables (s : MemoryAdapter) : List JsString := s.tables.keys

def hasOp (s : MemoryAdapter) (id : JsString) : Bool := s.opsById.contains id

def getWinner (s : MemoryAdapter) (table row column : JsString) : Option Op :=
  s.tables.get table row column

/-- The values of the log, sorted by HLC. -/
def allOps (s : MemoryAdapter) : List Op :=
  (s.opsById.toList.map Prod.snd).insertionSort fun a b => a.hlc ≤ b.hlc

/-- Every stored op above `frontier`, sorted by HLC. -/
def opsSince (s : MemoryAdapter) (frontier : Frontier) : List Op :=
  ((s.opsById.toList.map Prod.snd).filter (aboveFrontier · frontier)).insertionSort
    fun a b => a.hlc ≤ b.hlc

def opCount (s : MemoryAdapter) : Nat := s.opsById.size

def setPeerFrontier (s : MemoryAdapter) (peer : JsString) (frontier : Frontier) : MemoryAdapter :=
  { s with peerFrontiers := s.peerFrontiers.insert peer frontier }

def compact (s : MemoryAdapter) (write : CompactionWrite) : MemoryAdapter :=
  { s with
    opsById := write.opIds.foldl (fun ops id => ops.erase id) s.opsById
    tables := s.tables.removeAll (write.cellKeys.map splitKey) }

def applyBatch (s : MemoryAdapter) (batch : BatchWrite) : MemoryAdapter :=
  { s with
    opsById := batch.ops.foldl (fun ops op => ops.insert op.id op) s.opsById
    tables := s.tables.setAll (batch.winners.toList.map fun (key, op) =>
      ((splitKey key).1, (splitKey key).2.1, (splitKey key).2.2, op))
    frontier := batch.frontier
    clock := some batch.clock }

/-! ## Reading it as sets and functions -/

/-- The operations in the log. -/
def log (s : MemoryAdapter) : Set Op := {o | s.opsById[o.id]? = some o}

/-- The winner of a cell. -/
def winner (s : MemoryAdapter) (c : Cell) : Option Op := s.getWinner c.1 c.2.1 c.2.2

/-- The log is keyed by id, the cells by what they hold, and no inner map is empty. -/
structure Keyed (s : MemoryAdapter) : Prop where
  ids : ∀ {k : JsString} {o : Op}, s.opsById[k]? = some o → o.id = k
  cells : ∀ {c o}, s.winner c = some o → o.cell = c
  tight : s.tables.Tight

theorem Keyed.empty : empty.Keyed where
  ids h := by simp [MemoryAdapter.empty] at h
  cells {c o} h := by
    have h' : NestedMap.get ∅ c.1 c.2.1 c.2.2 = some o := h
    simp at h'
  tight := NestedMap.Tight.empty

variable {s : MemoryAdapter}

@[simp] theorem log_empty : empty.log = ∅ := by
  ext o
  simp [log, MemoryAdapter.empty]

theorem winner_empty (c : Cell) : empty.winner c = none :=
  NestedMap.get_empty (δ := Op) c.1 c.2.1 c.2.2

theorem mem_log {o : Op} : o ∈ s.log ↔ s.opsById[o.id]? = some o := Iff.rfl

theorem hasOp_iff {id : JsString} : s.hasOp id = true ↔ ∃ o, s.opsById[id]? = some o := by
  unfold hasOp
  rw [Std.ExtTreeMap.contains_eq_isSome_getElem?, Option.isSome_iff_exists]

theorem Keyed.hasOp_iff (h : s.Keyed) {id : JsString} :
    s.hasOp id = true ↔ ∃ o ∈ s.log, o.id = id := by
  rw [MemoryAdapter.hasOp_iff]
  constructor
  · rintro ⟨o, ho⟩
    have e := h.ids ho
    exact ⟨o, by rw [mem_log, e, ho], e⟩
  · rintro ⟨o, ho, rfl⟩
    exact ⟨o, ho⟩

theorem Keyed.mem_values (h : s.Keyed) {o : Op} :
    o ∈ s.opsById.toList.map Prod.snd ↔ o ∈ s.log := by
  simp only [List.mem_map, Prod.exists, Std.ExtTreeMap.mem_toList_iff_getElem?_eq_some,
    exists_eq_right, mem_log]
  constructor
  · rintro ⟨k, hk⟩
    rw [h.ids hk, hk]
  · intro hk
    exact ⟨_, hk⟩

theorem Keyed.mem_allOps (h : s.Keyed) {o : Op} : o ∈ s.allOps ↔ o ∈ s.log := by
  rw [allOps, List.mem_insertionSort, h.mem_values]

theorem Keyed.nodup_allOps (h : s.Keyed) : (s.allOps.map Op.id).Nodup := by
  have hp : s.allOps.Perm (s.opsById.toList.map Prod.snd) := List.perm_insertionSort ..
  have hk : (s.opsById.toList.map Prod.snd).map Op.id = s.opsById.toList.map Prod.fst := by
    rw [List.map_map]
    apply List.map_congr_left
    rintro ⟨k, o⟩ hm
    exact h.ids (Std.ExtTreeMap.mem_toList_iff_getElem?_eq_some.1 hm)
  rw [(hp.map Op.id).nodup_iff, hk]
  exact Std.ExtTreeMap.nodup_toList_keys

theorem Keyed.mem_opsSince (h : s.Keyed) {f : Frontier} {o : Op} :
    o ∈ s.opsSince f ↔ o ∈ s.log ∧ aboveFrontier o f = true := by
  rw [opsSince, List.mem_insertionSort, List.mem_filter, h.mem_values]

/-- Two operations of the log with one id are one. -/
theorem log_inj {o p : Op} (ho : o ∈ s.log) (hp : p ∈ s.log) (h : o.id = p.id) : o = p := by
  rw [mem_log] at ho hp
  rw [h, hp] at ho
  exact (Option.some.inj ho).symm

/-- An id after a batch is that of one of its operations, or as before. -/
theorem getElem?_foldl_insertOp (ops : List Op) (m : JsMap Op) (k : JsString) :
    ((∀ o ∈ ops, o.id ≠ k) ∧ (ops.foldl (fun m o => m.insert o.id o) m)[k]? = m[k]?) ∨
      ∃ o ∈ ops, o.id = k ∧ (ops.foldl (fun m o => m.insert o.id o) m)[k]? = some o := by
  induction ops generalizing m with
  | nil => exact .inl ⟨fun _ h => (List.not_mem_nil h).elim, rfl⟩
  | cons o ops ih =>
    rw [List.foldl_cons]
    rcases ih (m.insert o.id o) with ⟨hne, h⟩ | ⟨p, hp, hk, h⟩
    · rw [h, Std.ExtTreeMap.getElem?_insert_eq]
      split
      · rename_i hk
        exact .inr ⟨o, List.mem_cons_self, hk, rfl⟩
      · rename_i hk
        exact .inl ⟨List.forall_mem_cons.2 ⟨hk, hne⟩, rfl⟩
    · exact .inr ⟨p, List.mem_cons_of_mem _ hp, hk, h⟩

/-- The log after a batch of new operations. -/
theorem log_applyBatch {b : BatchWrite} (hk : s.Keyed) (hd : (b.ops.map Op.id).Nodup)
    (hn : ∀ o ∈ b.ops, s.hasOp o.id = false) :
    (s.applyBatch b).log = s.log ∪ {o | o ∈ b.ops} ∧
      ∀ {k : JsString} {o : Op}, (s.applyBatch b).opsById[k]? = some o → o.id = k := by
  refine ⟨?_, fun {k o} h => ?_⟩
  · ext o
    rw [Set.mem_union, mem_log, mem_log]
    change (b.ops.foldl (fun m o => m.insert o.id o) s.opsById)[o.id]? = some o ↔ _
    rcases getElem?_foldl_insertOp b.ops s.opsById o.id with ⟨hne, h⟩ | ⟨p, hp, hid, h⟩
    · rw [h]
      exact ⟨.inl, fun ho => ho.resolve_right fun ho => hne o ho rfl⟩
    · rw [h]
      constructor
      · intro e
        rw [← Option.some.inj e]
        exact .inr hp
      · rintro (ho | ho)
        -- an id of the batch is not in the store
        · have hno := hn p hp
          rw [← Bool.not_eq_true, MemoryAdapter.hasOp_iff, hid] at hno
          exact absurd ⟨o, ho⟩ hno
        · rw [List.inj_on_of_nodup_map hd hp ho hid]
  · change (b.ops.foldl (fun m o => m.insert o.id o) s.opsById)[k]? = some o at h
    rcases getElem?_foldl_insertOp b.ops s.opsById k with ⟨-, h'⟩ | ⟨p, -, hid, h'⟩
    · rw [h'] at h
      exact hk.ids h
    · rw [h'] at h
      rw [← Option.some.inj h]
      exact hid

/-- The winners after a batch whose keys are the cells of their operations. -/
theorem winner_applyBatch {b : BatchWrite}
    (hw : ∀ {k : JsString} {o : Op}, b.winners[k]? = some o → k = cellKey o.table o.row o.column)
    {c : Cell} (hc : Legal c) :
    (s.applyBatch b).winner c = (b.winners[cellKey c.1 c.2.1 c.2.2]?).or (s.winner c) := by
  obtain ⟨t, r, q⟩ := c
  have hl : ∀ d, (t, r, q, d) ∈ b.winners.toList.map (fun (key, op) =>
      ((splitKey key).1, (splitKey key).2.1, (splitKey key).2.2, op)) ↔
      b.winners[cellKey t r q]? = some d := by
    intro d
    simp only [List.mem_map, Prod.exists, Std.ExtTreeMap.mem_toList_iff_getElem?_eq_some,
      Prod.mk.injEq]
    constructor
    · rintro ⟨k, o, hk, h1, h2, h3, rfl⟩
      have e := hw hk
      have e' : splitKey k = o.cell := by rw [e]; exact splitKey_cellKey o.legal
      rw [e'] at h1 h2 h3
      rw [← h1, ← h2, ← h3]
      change b.winners[cellKey o.table o.row o.column]? = some o
      rw [← e, hk]
    · intro hd
      have e : splitKey (cellKey t r q) = (t, r, q) := splitKey_cellKey hc
      exact ⟨_, d, hd, by rw [e], by rw [e], by rw [e], rfl⟩
  change NestedMap.get (s.tables.setAll _) t r q = _
  cases h : b.winners[cellKey t r q]? with
  | some d =>
    rw [NestedMap.get_setAll_of_mem ((hl d).2 h) (fun d' hd' => by
      rw [hl, h] at hd'; exact (Option.some.inj hd').symm), Option.some_or]
  | none =>
    rw [NestedMap.get_setAll_of_not_mem (fun d hd => by rw [hl, h] at hd; cases hd), Option.none_or]
    rfl

/-- A cell that is not legal is never written. -/
theorem winner_applyBatch_of_not_legal {b : BatchWrite}
    (hw : ∀ {k : JsString} {o : Op}, b.winners[k]? = some o → k = cellKey o.table o.row o.column)
    {c : Cell} (hc : ¬ Legal c) : (s.applyBatch b).winner c = s.winner c := by
  obtain ⟨t, r, q⟩ := c
  refine NestedMap.get_setAll_of_not_mem fun d hd => hc ?_
  simp only [List.mem_map, Prod.exists, Std.ExtTreeMap.mem_toList_iff_getElem?_eq_some,
    Prod.mk.injEq] at hd
  obtain ⟨k, o, hk, rfl, rfl, rfl, rfl⟩ := hd
  have e' : splitKey k = o.cell := by rw [hw hk]; exact splitKey_cellKey o.legal
  change Legal (splitKey k)
  rw [e']
  exact o.legal

theorem log_compact {w : CompactionWrite} :
    (s.compact w).log = {o | o ∈ s.log ∧ o.id ∉ w.opIds} := by
  ext o
  change (w.opIds.foldl (fun ops id => ops.erase id) s.opsById)[o.id]? = some o ↔ _
  rw [Std.ExtTreeMap.getElem?_foldl_erase]
  by_cases h : o.id ∈ w.opIds <;> simp [h, mem_log]

theorem winner_compact {w : CompactionWrite} (c : Cell) :
    (s.compact w).winner c = if c ∈ w.cellKeys.map splitKey then none else s.winner c := by
  have h := NestedMap.get_removeAll (m := s.tables) (l := w.cellKeys.map splitKey) (a := c.1)
    (b := c.2.1) (c := c.2.2)
  by_cases hc : c ∈ w.cellKeys.map splitKey
  · rw [if_pos hc] at h ⊢
    exact h
  · rw [if_neg hc] at h ⊢
    exact h

theorem Keyed.compact (h : s.Keyed) (w : CompactionWrite) : (s.compact w).Keyed where
  ids {k o} hk := by
    have hk' : (w.opIds.foldl (fun ops id => ops.erase id) s.opsById)[k]? = some o := hk
    rw [Std.ExtTreeMap.getElem?_foldl_erase] at hk'
    by_cases hm : k ∈ w.opIds
    · rw [if_pos hm] at hk'; cases hk'
    · rw [if_neg hm] at hk'; exact h.ids hk'
  cells {c o} hc := by
    rw [winner_compact] at hc
    by_cases hm : c ∈ w.cellKeys.map splitKey
    · rw [if_pos hm] at hc; cases hc
    · rw [if_neg hm] at hc; exact h.cells hc
  tight := h.tight.removeAll _

/-- **Keyed stores with equal winners have equal cells.** -/
theorem Keyed.tables_eq {s' : MemoryAdapter} (h : s.Keyed) (h' : s'.Keyed)
    (e : s.winner = s'.winner) : s.tables = s'.tables :=
  h.tight.ext h'.tight fun a b c => congrFun e (a, b, c)

/-- Keyed stores with equal logs hold equal maps. -/
theorem Keyed.opsById_eq {s' : MemoryAdapter} (h : s.Keyed) (h' : s'.Keyed)
    (e : s.log = s'.log) : s.opsById = s'.opsById := by
  have side : ∀ {a b : MemoryAdapter}, a.Keyed → a.log = b.log → ∀ {k : JsString} {o : Op},
      a.opsById[k]? = some o → b.opsById[k]? = some o := by
    intro a b ha e k o hk
    have hi := ha.ids hk
    have hm : o ∈ a.log := by rw [mem_log, hi, hk]
    rw [e, mem_log, hi] at hm
    exact hm
  apply Std.ExtTreeMap.ext_getElem?
  intro k
  cases h1 : s.opsById[k]? with
  | some o => exact (side h e h1).symm
  | none =>
    cases h2 : s'.opsById[k]? with
    | none => rfl
    | some o => rw [side h' e.symm h2] at h1; cases h1

end MemoryAdapter

end TangentFeed
