import TangentFeed.Adapters.Refine
import TangentFeed.Dart.Ledger
import TangentFeed.Dart.Reads
import TangentFeed.Dart.Sqlite
import TangentFeed.Network.Keys

/-!
# The tables simulate the maps

`OnSqlite s db` ties the tables to the in-memory store that was called in the same
way: row by row they hold its texts. Every call the engine makes keeps the tie,
whichever of its statements throws, because a transaction that is rolled back is one
that never was.
-/

namespace TangentFeed.Dart

/-! ## Texts in order -/

/-- A text below U+0080. -/
def Ascii (s : JsString) : Prop := ∀ c ∈ s, c.val < 128

theorem textEncode_of_ascii {s : JsString} (h : Ascii s) :
    textEncode s = s.map fun c => Fin.ofNat 256 c.val := by
  rw [textEncode_of_lt fun c hc => Nat.lt_trans (h c hc) (by decide)]
  induction s with
  | nil => rfl
  | cons c s ih =>
    obtain ⟨hc, hs⟩ := List.forall_mem_cons.1 h
    rw [List.flatMap_cons, ih hs, List.map_cons, utf8Char, if_pos hc]
    rfl

theorem map_lt_iff {s t : JsString} (hs : Ascii s) (ht : Ascii t) :
    s.map (fun c => Fin.ofNat 256 c.val) < t.map (fun c => Fin.ofNat 256 c.val) ↔ s < t := by
  induction s generalizing t with
  | nil =>
    cases t with
    | nil => exact iff_of_false (List.not_lt_nil _) (List.not_lt_nil _)
    | cons d t => exact iff_of_true (List.nil_lt_cons ..) (List.nil_lt_cons ..)
  | cons c s ih =>
    cases t with
    | nil => exact iff_of_false (List.not_lt_nil _) (List.not_lt_nil _)
    | cons d t =>
      obtain ⟨hc, hs⟩ := List.forall_mem_cons.1 hs
      obtain ⟨hd, ht⟩ := List.forall_mem_cons.1 ht
      have hlt : Fin.ofNat 256 c.val < Fin.ofNat 256 d.val ↔ c < d := by
        simp only [Fin.lt_def, Fin.val_ofNat]
        omega
      have heq : Fin.ofNat 256 c.val = Fin.ofNat 256 d.val ↔ c = d := by
        simp only [Fin.ext_iff, Fin.val_ofNat]
        omega
      rw [List.map_cons, List.map_cons, List.cons_lt_cons_iff, List.cons_lt_cons_iff, hlt, heq,
        ih hs ht]

/-- **On ASCII, SQLite orders texts as Dart does.** -/
theorem textLe_iff {s t : JsString} (hs : Ascii s) (ht : Ascii t) : textLe s t = true ↔ s ≤ t := by
  unfold textLe
  rw [decide_eq_true_iff, textEncode_of_ascii hs, textEncode_of_ascii ht, ← not_lt, ← not_lt]
  exact not_congr (map_lt_iff ht hs)

theorem ascii_of_forall {s l : JsString} (hl : l.all (fun c => c.val < 128) = true)
    (h : ∀ c ∈ s, c ∈ l) : Ascii s := fun c hc =>
  of_decide_eq_true (List.all_eq_true.1 hl c (h c hc))

theorem ascii_of_lowerHex {s : JsString} (h : s.all isLowerHex = true) : Ascii s := by
  intro c hc
  have hex := List.all_eq_true.1 h c hc
  simp only [isLowerHex, Bool.or_eq_true, Bool.and_eq_true, decide_eq_true_eq] at hex
  omega

theorem Ascii.append {s t : JsString} (hs : Ascii s) (ht : Ascii t) : Ascii (s ++ t) := by
  intro c hc
  rcases List.mem_append.1 hc with h | h
  · exact hs c h
  · exact ht c h

namespace StoredOp

variable (o : StoredOp)

theorem ascii_table : Ascii o.table := ascii_of_forall (by decide +kernel) o.legal.table.units

theorem ascii_row : Ascii o.row := ascii_of_forall (by decide +kernel) o.legal.row.units

theorem ascii_hlc : Ascii o.hlc := by
  obtain ⟨h, hr, he, -⟩ := o.legal.hlc
  have hdash : dash.val < 128 := by decide
  rw [he, encodeHlc_eq hr]
  refine .append (.append (ascii_of_lowerHex (all_isLowerHex_hexFixed ..)) ?_) ?_
  · exact List.forall_mem_cons.2 ⟨hdash, ascii_of_lowerHex (all_isLowerHex_hexFixed ..)⟩
  · exact List.forall_mem_cons.2
      ⟨hdash, ascii_of_lowerHex (Bool.and_eq_true_iff.1 hr.device).2⟩

end StoredOp

/-! ## Records read back -/

/-- What `jsonDecode` reads back as it was. -/
def Clean (v : Doc AnyNum) : Prop := Finite v ∧ v.Distinct

theorem Clean.decode {v : Doc AnyNum} (h : Clean v) : jsonDecodeAny (jsonEncodeAny v) = some v :=
  jsonDecodeAny_jsonEncodeAny h.1 h.2

theorem clean_str (s : JsString) : Clean (.str s) := ⟨trivial, trivial⟩

theorem clean_obj {fs : List (JsString × Doc AnyNum)} (hn : (fs.map Prod.fst).Nodup)
    (h : ∀ f ∈ fs, Clean f.2) : Clean (.obj fs) :=
  ⟨Doc.all_obj.2 fun f hf => (h f hf).1, Doc.distinct_obj.2 ⟨hn, fun f hf => (h f hf).2⟩⟩

section Maps

variable {α : Type} {doc : α → Doc AnyNum} {read : Doc AnyNum → Option α}

theorem clean_mapDoc (h : ∀ a, Clean (doc a)) (m : JsMap α) : Clean (mapDoc doc m) := by
  refine clean_obj ?_ ?_
  · rw [List.map_map]
    exact Std.ExtTreeMap.nodup_toList_keys
  · intro f hf
    obtain ⟨e, -, rfl⟩ := List.mem_map.1 hf
    exact h e.2

/-- What is inserted one after the other is the map. -/
theorem foldl_insert_toList (m : JsMap α) :
    m.toList.foldl (fun m e => m.insert e.1 e.2) (∅ : JsMap α) = m := by
  apply Std.ExtTreeMap.ext_getElem?
  intro k
  apply Option.ext
  intro v
  rw [Std.ExtTreeMap.getElem?_foldl_insert fun h h' => ?_,
    Std.ExtTreeMap.mem_toList_iff_getElem?_eq_some, Std.ExtTreeMap.getElem?_empty]
  · exact or_iff_left fun h => nomatch h.2
  · rw [Std.ExtTreeMap.mem_toList_iff_getElem?_eq_some] at h h'
    exact Option.some.inj (h.symm.trans h')

theorem readMap_mapDoc (h : ∀ a, read (doc a) = some a) (m : JsMap α) :
    readMap read (mapDoc doc m) = some m := by
  have hfold : ∀ (l : List (JsString × α)) (m : JsMap α),
      (l.map fun e => (e.1, doc e.2)).foldlM (fun m e => (read e.2).map (m.insert e.1)) m =
        some (l.foldl (fun m e => m.insert e.1 e.2) m) := by
    intro l
    induction l with
    | nil => exact fun m => rfl
    | cons e l ih =>
      intro m
      rw [List.map_cons, List.foldlM_cons, h]
      exact ih _
  exact (hfold m.toList ∅).trans (congrArg some (foldl_insert_toList m))

end Maps

theorem clean_frontierDoc (f : Frontier) : Clean (frontierDoc f) := clean_mapDoc clean_str f

theorem readFrontier_frontierDoc (f : Frontier) : readFrontier (frontierDoc f) = some f :=
  @readMap_mapDoc _ .str readText (fun _ => rfl) f

theorem clean_peersDoc (peers : JsMap Frontier) : Clean (peersDoc peers) :=
  clean_mapDoc clean_frontierDoc peers

theorem readPeers_peersDoc (peers : JsMap Frontier) : readPeers (peersDoc peers) = some peers :=
  readMap_mapDoc readFrontier_frontierDoc peers

/-- A clock whose numbers are integers of Dart. -/
def Storable (clock : Hlc) : Prop := clock.millis < 2 ^ 63 ∧ clock.counter < 2 ^ 63

theorem clean_clockDoc (clock : Hlc) : Clean (clockDoc clock) := by
  have hn : [js "millis", js "counter", js "deviceId"].Nodup := by decide
  refine clean_obj hn ?_
  rintro f (_ | ⟨_, _ | ⟨_, _ | ⟨_, ⟨⟩⟩⟩⟩)
  · exact ⟨rfl, trivial⟩
  · exact ⟨rfl, trivial⟩
  · exact clean_str _

theorem readClock_clockDoc {clock : Hlc} (h : Storable clock) :
    readClock (clockDoc clock) = some clock := by
  change some (Hlc.mk (Int64.ofNat clock.millis).toInt.toNat (Int64.ofNat clock.counter).toInt.toNat
    clock.deviceId) = _
  rw [Int64.toInt_ofNat_of_lt h.1, Int64.toInt_ofNat_of_lt h.2]
  rfl

/-- On digits, `int.parse` reads what `parseInt` does. -/
theorem unhexText_eq {s : JsString} (h : s.all isHexUnit = true) : unhexText s = some (unhex s) := by
  have hdot : ∀ {c : CodeUnit}, isHexUnit c = true → isLineTerminator c = false := by
    intro c hc
    simp only [isHexUnit, isLowerHex, Bool.or_eq_true, Bool.and_eq_true, decide_eq_true_eq] at hc
    simp only [isLineTerminator, Bool.or_eq_false_iff, beq_eq_false_iff_ne]
    omega
  induction s using unhexText.induct with
  | case1 a b rest hab ih =>
    obtain ⟨ha, hb⟩ := Bool.and_eq_true_iff.1 hab
    simp only [List.all_cons, Bool.and_eq_true] at h
    rw [unhexText, if_pos hab, ih h.2.2, unhex, hdot ha, hdot hb, if_neg Bool.false_ne_true,
      if_neg Bool.false_ne_true]
    rfl
  | case2 a b rest hab =>
    simp only [List.all_cons, Bool.and_eq_true] at h
    exact absurd (Bool.and_eq_true_iff.2 ⟨h.1, h.2.1⟩) hab
  | case3 s hs =>
    rw [unhexText, unhex]
    · exact hs
    · exact hs

theorem unhexText_hex (b : Bytes) : unhexText (hex b) = some b := by
  have hall : (hex b).all isHexUnit = true := by
    refine List.all_eq_true.2 fun c hc => ?_
    obtain ⟨x, -, hx⟩ := List.mem_flatMap.1 hc
    rw [hexByte_eq] at hx
    unfold isHexUnit
    rw [List.all_eq_true.1 (all_isLowerHex_hexFixed ..) c hx, Bool.true_or]
  rw [unhexText_eq hall, unhex_hex]

theorem clean_keyDoc (key : DeviceKey) : Clean (keyDoc key) := by
  have hn : [js "publicKey", js "privateKey"].Nodup := by decide
  refine clean_obj hn ?_
  rintro f (_ | ⟨_, _ | ⟨_, ⟨⟩⟩⟩)
  · exact clean_str _
  · exact clean_str _

theorem readKey_keyDoc (key : DeviceKey) : readKey (keyDoc key) = some key := by
  change (unhexText (hex key.publicKey)).bind (fun pub =>
    (unhexText (hex key.privateKey)).map fun priv => DeviceKey.mk pub priv) = _
  rw [unhexText_hex, unhexText_hex]
  rfl

/-! ## Operations read back -/

theorem clean_toJson {op : Op} (h : Clean op.value) : Clean op.toJson := by
  have hn : [js "id", js "table", js "row", js "column", js "value", js "hlc", js "device",
    js "sig"].Nodup := by decide
  refine clean_obj hn fun f hf => ?_
  simp only [List.mem_cons, List.not_mem_nil, or_false] at hf
  rcases hf with rfl | rfl | rfl | rfl | rfl | rfl | rfl | rfl
  iterate 4 exact clean_str _
  · exact h
  iterate 3 exact clean_str _

namespace StoredOp

/-- The row of `ops` that an operation is in. -/
def opRow (o : StoredOp) : OpRow := .ofOp o.toOpFields

/-- The `op_json` that an operation is in. -/
def opJson (o : StoredOp) : JsString := jsonEncodeAny (Op.toJson o.toOpFields)

/-- The value of an operation in a store is finite, and clean when it is a Dart map. -/
theorem clean {o : StoredOp} (h : o.value.Distinct) : Clean o.value :=
  ⟨(validate_eq_ok.1 o.valid).2.1, h⟩

theorem readOp_opJson {o : StoredOp} (h : o.value.Distinct) : readOp o.opJson = some o.toOpFields := by
  obtain ⟨hlegal, hfinite, hsize⟩ := validate_eq_ok.1 o.valid
  have hfields : HasFields (lookup (Op.toJson o.toOpFields)) Doc.str o.toOpFields := by
    constructor <;> rfl
  unfold readOp opJson
  rw [(clean_toJson (clean h)).decode, Option.bind_some,
    fromJson_eq_ok.2 ⟨⟨hfields, hlegal, hfinite⟩, hsize⟩]
  rfl

theorem toOp_opRow {o : StoredOp} (h : o.value.Distinct) : o.opRow.toOp = some o.toOpFields := by
  have hc : Clean (.obj [(js "v", o.value)]) :=
    clean_obj (List.nodup_singleton _) (List.forall_mem_singleton.2 (clean h))
  unfold OpRow.toOp opRow OpRow.ofOp encodeValue
  simp only
  rw [hc.decode]
  rfl

end StoredOp

/-! ## The stores -/

namespace MemoryAdapter

/-- What every store the engine wrote satisfies: it is keyed, and each value is a Dart map. -/
structure Stocked (s : MemoryAdapter) : Prop where
  keyed : s.Keyed
  logged : ∀ {k : JsString} {o : StoredOp}, s.log.get k = some o → o.value.Distinct
  winning : ∀ {c : Cell} {o : StoredOp}, s.winners.get c = some o → o.value.Distinct

theorem Stocked.empty : Stocked empty where
  keyed := ⟨fun h => (nomatch h), fun h => (nomatch h)⟩
  logged h := nomatch h
  winning h := nomatch h

/-- A batch as the engine builds it. -/
structure BuiltBatch (s : MemoryAdapter) (b : BatchWrite) : Prop where
  nodup : (b.ops.map fun o => o.id).Nodup
  new : ∀ o ∈ b.ops, s.log.get o.id = none
  keyed : ∀ {c : Cell} {o : StoredOp}, b.winners.get c = some o → o.cell = c
  logged : ∀ o ∈ b.ops, o.value.Distinct
  winning : ∀ {c : Cell} {o : StoredOp}, b.winners.get c = some o → o.value.Distinct
  clock : ∀ c, b.clock = some c → Storable c

/-- A call as the engine makes it. -/
def Built (s : MemoryAdapter) : StoreCall → Prop
  | .applyBatch b => BuiltBatch s b
  | .compact _ _ | .setPeerFrontier _ _ | .setDeviceKey _ => True

theorem Stocked.make {s : MemoryAdapter} (hs : Stocked s) {call : StoreCall} (hb : s.Built call) :
    Stocked (s.make call) := by
  cases call with
  | applyBatch b =>
    have hb : BuiltBatch s b := hb
    have hlog : ∀ {k : JsString} {o : StoredOp}, (s.applyBatch b).log.get k = some o →
        s.log.get k = some o ∨ o ∈ b.ops ∧ o.id = k := by
      intro k o h
      rcases get_foldl_setOp b.ops s.log k with ⟨-, hk⟩ | ⟨p, hp, hid, hk⟩
      · exact .inl (hk.symm.trans h)
      · obtain rfl := Option.some.inj (hk.symm.trans h)
        exact .inr ⟨hp, hid⟩
    have hcell : ∀ {c : Cell} {o : StoredOp}, (s.applyBatch b).winner c = some o →
        b.winners.get c = some o ∨ s.winner c = some o := by
      intro c o h
      rw [winner_applyBatch, Option.or_eq_some_iff] at h
      exact h.imp_right And.right
    refine ⟨⟨fun h => ?_, fun h => ?_⟩, fun h => ?_, fun h => ?_⟩
    · exact (hlog h).elim hs.keyed.ids And.right
    · exact (hcell h).elim hb.keyed hs.keyed.cells
    · exact (hlog h).elim hs.logged fun h => hb.logged _ h.1
    · exact (hcell h).elim hb.winning hs.winning
  | compact opIds cellKeys =>
    have hlog : ∀ {k : JsString} {o : StoredOp}, (s.compact opIds cellKeys).log.get k = some o →
        s.log.get k = some o := by
      intro k o h
      change (opIds.foldl (fun log id => log.erase id) s.log).get k = some o at h
      rw [OrderedMap.get_foldl_erase] at h
      exact (Option.ite_none_left_eq_some.1 h).2
    have hcell : ∀ {c : Cell} {o : StoredOp}, (s.compact opIds cellKeys).winner c = some o →
        s.winner c = some o := by
      intro c o h
      rw [winner_compact] at h
      exact (Option.ite_none_left_eq_some.1 h).2
    exact ⟨⟨fun h => hs.keyed.ids (hlog h), fun h => hs.keyed.cells (hcell h)⟩,
      fun h => hs.logged (hlog h), fun h => hs.winning (hcell h)⟩
  | setPeerFrontier peer f => exact ⟨⟨hs.keyed.ids, hs.keyed.cells⟩, hs.logged, hs.winning⟩
  | setDeviceKey key => exact ⟨⟨hs.keyed.ids, hs.keyed.cells⟩, hs.logged, hs.winning⟩

end MemoryAdapter

/-- The tables hold the texts of the maps. -/
structure OnSqlite (s : MemoryAdapter) (db : SqliteAdapter) : Prop where
  ops : db.ops = s.log.map StoredOp.opRow
  cells : db.cells = s.winners.map StoredOp.opJson
  frontier : db.getFrontier = some s.frontier
  clock : db.getClock = some s.clock
  peers : db.getPeerFrontiers = some s.peerFrontiers
  deviceKey : db.getDeviceKey = some s.deviceKey

theorem OnSqlite.empty : OnSqlite .empty .empty := ⟨rfl, rfl, rfl, rfl, rfl, rfl⟩

namespace SqliteAdapter

variable {db : SqliteAdapter}

theorem readMeta_upsertMeta {α : Type} {value : Doc AnyNum} (hc : Clean value)
    (key k : JsString) (absent : α) (read : Doc AnyNum → Option α) :
    (upsertMeta key value db).readMeta k absent read =
      if k = key then read value else db.readMeta k absent read := by
  unfold readMeta upsertMeta
  simp only [OrderedMap.get_set]
  by_cases h : k = key
  · rw [if_pos h, if_pos h]
    simp only [hc.decode, Option.bind_some]
  · rw [if_neg h, if_neg h]

theorem foldl_insertOp {m : OrderedMap JsString StoredOp} (h : db.ops = m.map StoredOp.opRow)
    {ops : List StoredOp} (hn : (ops.map fun o => o.id).Nodup)
    (hnew : ∀ o ∈ ops, m.get o.id = none) :
    (ops.map fun op => insertOp op.toOpFields).foldl (fun db f => f db) db =
      { db with ops := (ops.foldl (fun m op => m.set op.id op) m).map StoredOp.opRow } := by
  induction ops generalizing m db with
  | nil => rw [List.map_nil, List.foldl_nil, List.foldl_nil, ← h]
  | cons op ops ih =>
    obtain ⟨hop, hnew⟩ := List.forall_mem_cons.1 hnew
    rw [List.map_cons, List.nodup_cons] at hn
    have hinsert : insertOp op.toOpFields db =
        { db with ops := (m.set op.id op).map StoredOp.opRow } := by
      have hno : db.hasOp op.id = false := by
        rw [hasOp, h, OrderedMap.get_map, hop]
        rfl
      unfold insertOp
      rw [if_neg (Bool.not_eq_true _ ▸ hno), h, OrderedMap.map_set]
      rfl
    rw [List.map_cons, List.foldl_cons, List.foldl_cons, hinsert]
    refine ih rfl hn.2 fun o ho => ?_
    rw [OrderedMap.get_set, if_neg]
    · exact hnew o ho
    · intro e
      exact hn.1 (e ▸ List.mem_map_of_mem ho)

theorem foldl_upsertCell (l : List (Cell × StoredOp)) {m : OrderedMap Cell StoredOp}
    (h : db.cells = m.map StoredOp.opJson) :
    (l.map fun e => upsertCell e.1 e.2.toOpFields).foldl (fun db f => f db) db =
      { db with cells := (l.foldl (fun m e => m.set e.1 e.2) m).map StoredOp.opJson } := by
  induction l generalizing m db with
  | nil => rw [List.map_nil, List.foldl_nil, List.foldl_nil, ← h]
  | cons e l ih =>
    have hcell : (upsertCell e.1 e.2.toOpFields db).cells = (m.set e.1 e.2).map StoredOp.opJson := by
      rw [OrderedMap.map_set, ← h]
      rfl
    exact ih hcell

theorem foldl_deleteOp (ids : List JsString) {m : OrderedMap JsString StoredOp}
    (h : db.ops = m.map StoredOp.opRow) : (ids.map deleteOp).foldl (fun db f => f db) db =
      { db with ops := (ids.foldl (fun m id => m.erase id) m).map StoredOp.opRow } := by
  induction ids generalizing m db with
  | nil => rw [List.map_nil, List.foldl_nil, List.foldl_nil, ← h]
  | cons id ids ih =>
    have hops : (deleteOp id db).ops = (m.erase id).map StoredOp.opRow := by
      rw [OrderedMap.map_erase, ← h]
      rfl
    exact ih hops

theorem foldl_deleteCell (keys : List Cell) {m : OrderedMap Cell StoredOp}
    (h : db.cells = m.map StoredOp.opJson) : (keys.map deleteCell).foldl (fun db f => f db) db =
      { db with cells := (keys.foldl (fun m key => m.erase key) m).map StoredOp.opJson } := by
  induction keys generalizing m db with
  | nil => rw [List.map_nil, List.foldl_nil, List.foldl_nil, ← h]
  | cons key keys ih =>
    have hcells : (deleteCell key db).cells = (m.erase key).map StoredOp.opJson := by
      rw [OrderedMap.map_erase, ← h]
      rfl
    exact ih hcells

/-- A transaction is carried out whole or not at all. -/
theorem transaction_cases (throws : Nat → Bool) (statements : List (SqliteAdapter → SqliteAdapter))
    (db : SqliteAdapter) : transaction throws statements db = (false, db) ∨
      transaction throws statements db = (true, statements.foldl (fun db f => f db) db) := by
  unfold transaction
  split
  · exact .inl rfl
  split
  · exact .inl rfl
  rename_i db' h
  split
  · exact .inl rfl
  · exact .inr (by rw [attempt_eq_some h])

/-- A call that throws leaves the tables as they were. -/
theorem make_of_throws {throws : Nat → Bool} {db : SqliteAdapter} {call : StoreCall}
    (h : (db.make throws call).1 = false) : (db.make throws call).2 = db := by
  have htrans : ∀ {statements}, (transaction throws statements db).1 = false →
      (transaction throws statements db).2 = db := by
    intro statements h
    rcases transaction_cases throws statements db with ht | ht
    · rw [ht]
    · rw [ht] at h
      cases h
  cases call with
  | applyBatch b => exact htrans h
  | compact opIds cellKeys => exact htrans h
  | setPeerFrontier peer f =>
    unfold make at h ⊢
    simp only at h ⊢
    split
    · rfl
    rename_i h0
    rw [if_neg h0] at h
    split
    · rfl
    rename_i current hread
    simp only [hread] at h
    split
    · rfl
    · rename_i h1
      rw [if_neg h1] at h
      cases h
  | setDeviceKey key =>
    unfold make at h ⊢
    simp only at h ⊢
    split
    · rfl
    · rename_i h0
      rw [if_neg h0] at h
      cases h

end SqliteAdapter

/-- A record of `meta` that is written and read back, the others as they were. -/
theorem OnSqlite.writeMeta {s s' : MemoryAdapter} {db : SqliteAdapter} (h : OnSqlite s db)
    {key : JsString} {value : Doc AnyNum} (hc : Clean value) (hlog : s'.log = s.log)
    (hwin : s'.winners = s.winners)
    (hf : (if js "frontier" = key then readFrontier value else some s.frontier) = some s'.frontier)
    (hcl : (if js "clock" = key then (readClock value).map some else some s.clock) = some s'.clock)
    (hp : (if js "peers" = key then readPeers value else some s.peerFrontiers) =
      some s'.peerFrontiers)
    (hk : (if js "deviceKey" = key then (readKey value).map some else some s.deviceKey) =
      some s'.deviceKey) : OnSqlite s' (SqliteAdapter.upsertMeta key value db) where
  ops := hlog ▸ h.ops
  cells := hwin ▸ h.cells
  frontier := by
    rw [← hf, ← h.frontier]
    exact SqliteAdapter.readMeta_upsertMeta hc ..
  clock := by
    rw [← hcl, ← h.clock]
    exact SqliteAdapter.readMeta_upsertMeta hc ..
  peers := by
    rw [← hp, ← h.peers]
    exact SqliteAdapter.readMeta_upsertMeta hc ..
  deviceKey := by
    rw [← hk, ← h.deviceKey]
    exact SqliteAdapter.readMeta_upsertMeta hc ..

/-- The rows after the statements of a batch, -/
theorem OnSqlite.foldl_rows {s : MemoryAdapter} {db : SqliteAdapter} (h : OnSqlite s db)
    {b : BatchWrite} (hb : s.BuiltBatch b) :
    (b.ops.map (fun op => SqliteAdapter.insertOp op.toOpFields) ++
      b.winners.entries.map fun e => SqliteAdapter.upsertCell e.1 e.2.toOpFields).foldl
        (fun db f => f db) db = ⟨(s.applyBatch b).log.map StoredOp.opRow,
          (s.applyBatch b).winners.map StoredOp.opJson, db.meta⟩ := by
  rw [List.foldl_append, SqliteAdapter.foldl_insertOp h.ops hb.nodup hb.new]
  exact SqliteAdapter.foldl_upsertCell b.winners.entries h.cells

/-- and after those of a compaction. -/
theorem OnSqlite.foldl_compact {s : MemoryAdapter} {db : SqliteAdapter} (h : OnSqlite s db)
    (opIds : List JsString) (cellKeys : List Cell) :
    (SqliteAdapter.compactStatements opIds cellKeys).foldl (fun db f => f db) db =
      ⟨(s.compact opIds cellKeys).log.map StoredOp.opRow,
        (s.compact opIds cellKeys).winners.map StoredOp.opJson, db.meta⟩ := by
  unfold SqliteAdapter.compactStatements
  rw [List.foldl_append, SqliteAdapter.foldl_deleteOp opIds h.ops]
  exact SqliteAdapter.foldl_deleteCell cellKeys h.cells

/-- **Step lemma.** A call that completes keeps the tie, and one that throws leaves the
tables as they were. -/
theorem OnSqlite.make {s : MemoryAdapter} {db : SqliteAdapter} (h : OnSqlite s db)
    (throws : Nat → Bool) {call : StoreCall} (hb : s.Built call) :
    db.make throws call = (false, db) ∨
      (db.make throws call).1 = true ∧ OnSqlite (s.make call) (db.make throws call).2 := by
  cases call with
  | applyBatch b =>
    have hb : s.BuiltBatch b := hb
    rcases SqliteAdapter.transaction_cases throws (SqliteAdapter.batchStatements b) db with ht | ht
    · exact .inl ht
    right
    change (SqliteAdapter.transaction ..).1 = true ∧ OnSqlite _ (SqliteAdapter.transaction ..).2
    rw [ht]
    refine ⟨rfl, ?_⟩
    -- the log and the winners first, then the frontier, then the clock if there is one
    have hrows : OnSqlite { s.applyBatch b with frontier := s.frontier, clock := s.clock }
        ⟨(s.applyBatch b).log.map StoredOp.opRow, (s.applyBatch b).winners.map StoredOp.opJson,
          db.meta⟩ := ⟨rfl, rfl, h.frontier, h.clock, h.peers, h.deviceKey⟩
    have hfrontier : OnSqlite { s.applyBatch b with clock := s.clock } (SqliteAdapter.upsertMeta (js "frontier")
        (frontierDoc b.frontier) ⟨(s.applyBatch b).log.map StoredOp.opRow,
          (s.applyBatch b).winners.map StoredOp.opJson, db.meta⟩) :=
      hrows.writeMeta (clean_frontierDoc _) rfl rfl
        ((if_pos rfl).trans (readFrontier_frontierDoc _)) (if_neg (by decide))
        (if_neg (by decide)) (if_neg (by decide))
    unfold SqliteAdapter.batchStatements
    rw [List.foldl_append, h.foldl_rows hb, List.foldl_cons]
    cases hclock : b.clock with
    | none =>
      have hs : s.make (.applyBatch b) = { s.applyBatch b with clock := s.clock } := by
        change s.applyBatch b = _
        unfold MemoryAdapter.applyBatch
        rw [hclock]
        rfl
      rw [hs]
      exact hfrontier
    | some clock =>
      refine hfrontier.writeMeta (clean_clockDoc clock) rfl rfl (if_neg (by decide)) ?_
        (if_neg (by decide)) (if_neg (by decide))
      rw [if_pos rfl, readClock_clockDoc (hb.clock clock hclock)]
      change some (some clock) = some (b.clock.or s.clock)
      rw [hclock]
      rfl
  | compact opIds cellKeys =>
    rcases SqliteAdapter.transaction_cases throws (SqliteAdapter.compactStatements opIds cellKeys) db with ht | ht
    · exact .inl ht
    right
    change (SqliteAdapter.transaction ..).1 = true ∧ OnSqlite _ (SqliteAdapter.transaction ..).2
    rw [ht, h.foldl_compact]
    exact ⟨rfl, rfl, rfl, h.frontier, h.clock, h.peers, h.deviceKey⟩
  | setPeerFrontier peer f =>
    unfold SqliteAdapter.make
    simp only [h.peers]
    split
    · exact .inl rfl
    split
    · exact .inl rfl
    · exact .inr ⟨rfl, h.writeMeta (clean_peersDoc _) rfl rfl (if_neg (by decide))
        (if_neg (by decide)) ((if_pos rfl).trans (readPeers_peersDoc _)) (if_neg (by decide))⟩
  | setDeviceKey key =>
    unfold SqliteAdapter.make
    simp only
    split
    · exact .inl rfl
    · refine .inr ⟨rfl, h.writeMeta (clean_keyDoc key) rfl rfl (if_neg (by decide))
        (if_neg (by decide)) (if_neg (by decide)) ?_⟩
      rw [if_pos rfl, readKey_keyDoc]
      rfl

/-- Only a statement that throws makes a call throw. -/
theorem OnSqlite.completes {s : MemoryAdapter} {db : SqliteAdapter} (h : OnSqlite s db)
    (call : StoreCall) : (db.make never call).1 = true := by
  have htrans : ∀ statements, (SqliteAdapter.transaction never statements db).1 = true := by
    intro statements
    unfold SqliteAdapter.transaction
    simp only [attempt_never]
    rfl
  cases call with
  | applyBatch b => exact htrans _
  | compact opIds cellKeys => exact htrans _
  | setPeerFrontier peer f =>
    unfold SqliteAdapter.make
    simp only [h.peers]
    rfl
  | setDeviceKey key => rfl

end TangentFeed.Dart
