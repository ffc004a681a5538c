import TangentFeed.Lib.Sequence
import TangentFeed.Js.Hex
import TangentFeed.Js.Numeral
import TangentFeed.Js.Doc
import TangentFeed.Js.Value

/-!
# Reading JSON

`parseDoc` reads a text of the JSON grammar, with any reader of numerals, and
reads back what `Doc.write` writes. `Json.parse` is `JSON.parse`, `none` being
a `SyntaxError`: what `JSON.stringify` writes is read back as `Json.reparsed`
promises, with the properties in the order in which an object lists them.
-/

namespace TangentFeed.Json

/-- A tab, a line feed, a carriage return or a space. -/
def isSpace (c : CodeUnit) : Bool := c = 0x09 || c = 0x0a || c = 0x0d || c = 0x20

def skipSpace (s : JsString) : JsString := s.dropWhile isSpace

/-- `[0-9a-fA-F]`. -/
def isHex (c : CodeUnit) : Bool := isLowerHex c || (0x41 ≤ c.val && c.val ≤ 0x46)

/-- The unit that a backslash and `c` stand for. -/
def unescape (c : CodeUnit) : Option CodeUnit :=
  if c = 0x22 || c = 0x5c || c = 0x2f then some c
  else if c = 0x62 then some 0x08
  else if c = 0x66 then some 0x0c
  else if c = 0x6e then some 0x0a
  else if c = 0x72 then some 0x0d
  else if c = 0x74 then some 0x09
  else none

/-- The unit that an escape stands for, after its backslash. -/
def readEscape : JsString → Option (CodeUnit × JsString)
  | [] => none
  | d :: s =>
    if d = 0x75 then
      if (s.take 4).length = 4 ∧ (s.take 4).all isHex = true then
        some (Fin.ofNat 65536 (parseHex (s.take 4)), s.drop 4)
      else none
    else (unescape d).map fun u => (u, s)

/-- The rest of a string after its opening quote, less than `fuel` units of it. -/
def readUnits : Nat → JsString → Option (JsString × JsString)
  | 0, _ => none
  | _ + 1, [] => none
  | fuel + 1, c :: s =>
    if c = 0x22 then some ([], s)
    else if c.val < 0x20 then none
    else if c = 0x5c then
      (readEscape s).bind fun e => (readUnits fuel e.2).map fun p => (e.1 :: p.1, p.2)
    else (readUnits fuel s).map fun p => (c :: p.1, p.2)

/-- A string and what comes after it. -/
def readString (s : JsString) : Option (JsString × JsString) :=
  match s with
  | [] => none
  | c :: s => if c = 0x22 then readUnits (s.length + 1) s else none

/-- `true`, `false` or `null`. -/
def readWord {ν : Type} (s : JsString) : Option (Doc ν × JsString) :=
  if (js "true").isPrefixOf s then some (.bool true, s.drop 4)
  else if (js "false").isPrefixOf s then some (.bool false, s.drop 5)
  else if (js "null").isPrefixOf s then some (.null, s.drop 4)
  else none

/-- An item with the space around it. -/
def spaced {α : Type} (item : JsString → Option (α × JsString)) (s : JsString) :
    Option (α × JsString) :=
  (item (skipSpace s)).map fun p => (p.1, skipSpace p.2)

/-- `"key": value`. -/
def readMember {ν : Type} (value : JsString → Option (Doc ν × JsString)) (s : JsString) :
    Option ((JsString × Doc ν) × JsString) :=
  match spaced readString s with
  | none => none
  | some (_, []) => none
  | some (k, c :: s) =>
    if c = 0x3a then (spaced value s).map fun p => ((k, p.1), p.2) else none

/-- A value without space before it, nested less than `fuel` deep. -/
def parseValue {ν : Type} (num : JsString → Option (ν × JsString)) :
    Nat → JsString → Option (Doc ν × JsString)
  | 0, _ => none
  | _ + 1, [] => none
  | fuel + 1, c :: s =>
    if c = 0x5b then
      if (skipSpace s).head? = some 0x5d then some (.arr [], (skipSpace s).tail)
      else (Sequence.readItems (spaced (parseValue num fuel)) 0x2c 0x5d s.length s).map fun p =>
        (.arr p.1, p.2)
    else if c = 0x7b then
      if (skipSpace s).head? = some 0x7d then some (.obj [], (skipSpace s).tail)
      else (Sequence.readItems (readMember (parseValue num fuel)) 0x2c 0x7d s.length s).map fun p =>
        (.obj p.1, p.2)
    else if c = 0x22 then (readString (c :: s)).map fun p => (.str p.1, p.2)
    else if isDigit c ∨ c = 0x2d then (num (c :: s)).map fun p => (.num p.1, p.2)
    else readWord (c :: s)

/-- The document of a text. -/
def parseDoc {ν : Type} (num : JsString → Option (ν × JsString)) (s : JsString) :
    Option (Doc ν) :=
  match spaced (parseValue num (s.length + 1)) s with
  | some (t, []) => some t
  | _ => none

/-- The own properties that an object gets one after the other. -/
def ownFields (fs : List (JsString × Json)) : List (JsString × Json) :=
  fs.foldl (fun o f => withOwn o f.1 f.2) []

theorem foldl_withOwn_spec (fs : List (JsString × Json)) : ∀ o : List (JsString × Json),
    (o.map Prod.fst).Nodup →
      ((fs.foldl (fun o f => withOwn o f.1 f.2) o).map Prod.fst).Nodup ∧
        ∀ k, (fs.foldl (fun o f => withOwn o f.1 f.2) o).lookup k =
          (fs.reverse.lookup k).or (o.lookup k) := by
  induction fs with
  | nil => exact fun o ho => ⟨ho, fun k => rfl⟩
  | cons f fs ih =>
    intro o ho
    obtain ⟨hn, hl⟩ := ih (withOwn o f.1 f.2) (nodup_withOwn ho f.1 f.2)
    refine ⟨hn, fun k => ?_⟩
    rw [List.foldl_cons, hl, lookup_withOwn ho, List.reverse_cons, List.lookup_append,
      Option.or_assoc]
    congr 1
    rw [List.lookup_cons, List.lookup_nil]
    by_cases hk : k = f.1
    · rw [if_pos hk, beq_iff_eq.2 hk, Option.some_or]
    · rw [if_neg hk, beq_eq_false_iff_ne.2 hk, Option.none_or]

theorem nodup_ownFields (fs : List (JsString × Json)) : ((ownFields fs).map Prod.fst).Nodup :=
  (foldl_withOwn_spec fs [] List.nodup_nil).1

/-- The last of the properties of a name counts. -/
theorem lookup_ownFields (fs : List (JsString × Json)) (k : JsString) :
    (ownFields fs).lookup k = fs.reverse.lookup k := by
  unfold ownFields
  rw [(foldl_withOwn_spec fs [] List.nodup_nil).2, List.lookup_nil, Option.or_none]

/-- The value of a document. -/
def ofDoc : Doc Number → Json :=
  Doc.fold ⟨.null, .bool, .num, .str, .arr, fun fs => .obj (ownFields fs)⟩

/-- `JSON.parse(s)`. -/
def parse (s : JsString) : Option Json := (parseDoc Number.readNumber s).map ofDoc

example : (parse (js "\x7b \"b\" : [1, -2e-1 ,null],\"10\":\"\\u0041\\n\",\"b\":\x7b\x7d\x7d")).map
      stringify =
    some (js "\x7b\"10\":\"A\\n\",\"b\":\x7b\x7d\x7d") := by decide +kernel

/-! ## Strings are read back -/

theorem readUnits_raw {c : CodeUnit} (h1 : c ≠ 0x22) (h2 : ¬ c.val < 0x20) (h3 : c ≠ 0x5c)
    (fuel : Nat) (t : JsString) :
    readUnits (fuel + 1) (c :: t) = (readUnits fuel t).map fun p => (c :: p.1, p.2) := by
  rw [readUnits, if_neg h1, if_neg h2, if_neg h3]

theorem readUnits_escape {s : JsString} {u : CodeUnit} {t : JsString}
    (h : readEscape s = some (u, t)) (fuel : Nat) :
    readUnits (fuel + 1) (0x5c :: s) = (readUnits fuel t).map fun p => (u :: p.1, p.2) := by
  rw [readUnits, if_neg (by decide), if_neg (by decide), if_pos rfl, h]
  rfl

theorem readEscape_unicodeEscape (c : CodeUnit) (t : JsString) :
    readEscape (0x75 :: (padStart 4 0x30 (toString16 c.val) ++ t)) = some (c, t) := by
  have hpad : padStart 4 0x30 (toString16 c.val) = hexFixed 4 c.val :=
    padStart_toString16 (by decide) c.isLt
  have hlen := length_hexFixed 4 c.val
  have hall : (hexFixed 4 c.val).all isHex = true :=
    List.all_eq_true.2 fun d hd => by
      have := List.all_eq_true.1 (all_isLowerHex_hexFixed 4 c.val) d hd
      unfold isHex
      rw [this, Bool.true_or]
  have hval : Fin.ofNat 65536 (parseHex (hexFixed 4 c.val)) = c := by
    have hlt : c.val < 16 ^ 4 := c.isLt
    rw [parseHex_hexFixed, Nat.mod_eq_of_lt hlt]
    exact Fin.ofNat_val_eq_self c
  rw [hpad, readEscape, if_pos rfl, List.take_left' hlen, List.drop_left' hlen,
    if_pos ⟨hlen, hall⟩, hval]

theorem readUnits_quoteUnit (c : CodeUnit) (fuel : Nat) (t : JsString) :
    readUnits (fuel + 1) (quoteUnit c ++ t) = (readUnits fuel t).map fun p => (c :: p.1, p.2) := by
  unfold quoteUnit
  split_ifs with h1 h2 h3 h4 h5 h6 h7 h8
  · exact readUnits_escape (by rw [h1]; rfl) fuel
  · exact readUnits_escape (by rw [h2]; rfl) fuel
  · exact readUnits_escape (by rw [h3]; rfl) fuel
  · exact readUnits_escape (by rw [h4]; rfl) fuel
  · exact readUnits_escape (by rw [h5]; rfl) fuel
  · exact readUnits_escape (by rw [h6]; rfl) fuel
  · exact readUnits_escape (by rw [h7]; rfl) fuel
  · exact readUnits_escape (readEscape_unicodeEscape c t) fuel
  · refine readUnits_raw h6 (fun h => h8 ?_) h7 fuel t
    rw [decide_eq_true h]
    rfl

theorem readUnits_quoteUnits {s : JsString} {fuel : Nat} (h : s.length < fuel) (rest : JsString) :
    readUnits fuel (quoteUnits s ++ 0x22 :: rest) = some (s, rest) := by
  induction s using quoteUnits.induct generalizing fuel with
  | case1 =>
    obtain ⟨fuel, rfl⟩ := Nat.exists_eq_add_one_of_ne_zero (Nat.ne_of_gt h)
    exact if_pos rfl
  | case2 c =>
    obtain ⟨fuel, rfl⟩ := Nat.exists_eq_add_of_le' h
    have hend : readUnits (fuel + 1) (0x22 :: rest) = some ([], rest) := if_pos rfl
    rw [quoteUnits, show fuel + (List.length [c] + 1) = fuel + 1 + 1 from rfl, readUnits_quoteUnit,
      hend]
    rfl
  | case3 c d s hpair ih =>
    simp only [List.length_cons] at h
    obtain ⟨fuel, rfl⟩ : ∃ n, fuel = n + 1 + 1 := ⟨fuel - 2, by omega⟩
    have hraw : ∀ e : CodeUnit, 0xd800 ≤ e.val → e ≠ 0x22 ∧ ¬ e.val < 0x20 ∧ e ≠ 0x5c := by
      intro e he
      refine ⟨?_, by omega, ?_⟩
      · rintro rfl
        exact absurd he (by decide)
      · rintro rfl
        exact absurd he (by decide)
    unfold isHighSurrogate isLowSurrogate at hpair
    simp only [Bool.and_eq_true, decide_eq_true_eq] at hpair
    obtain ⟨c1, c2, c3⟩ := hraw c (by omega)
    obtain ⟨d1, d2, d3⟩ := hraw d (by omega)
    have hq : quoteUnits (c :: d :: s) = c :: d :: quoteUnits s := by
      rw [quoteUnits, if_pos (by unfold isHighSurrogate isLowSurrogate; simpa using hpair)]
    rw [hq, List.cons_append, List.cons_append, readUnits_raw c1 c2 c3, readUnits_raw d1 d2 d3,
      ih (by omega)]
    rfl
  | case4 c d s hpair ih =>
    simp only [List.length_cons] at h
    obtain ⟨fuel, rfl⟩ : ∃ n, fuel = n + 1 := ⟨fuel - 1, by omega⟩
    rw [quoteUnits, if_neg hpair, List.append_assoc, readUnits_quoteUnit,
      ih (by rw [List.length_cons]; omega)]
    rfl

theorem length_le_quoteUnits (s : JsString) : s.length ≤ (quoteUnits s).length := by
  have hunit : ∀ c, 1 ≤ (quoteUnit c).length := by
    intro c
    unfold quoteUnit
    split_ifs
    all_goals exact Nat.le_add_left 1 _
  induction s using quoteUnits.induct with
  | case1 => exact Nat.zero_le _
  | case2 c => exact hunit c
  | case3 c d s hpair ih =>
    rw [quoteUnits, if_pos hpair]
    simp only [List.length_cons]
    omega
  | case4 c d s hpair ih =>
    have := hunit c
    rw [quoteUnits, if_neg hpair, List.length_append, List.length_cons]
    omega

/-- A quoted string is read back, whatever follows. -/
theorem readString_quote (s rest : JsString) : readString (quote s ++ rest) = some (s, rest) := by
  have htext : quote s ++ rest = 0x22 :: (quoteUnits s ++ 0x22 :: rest) := by
    unfold quote
    rw [List.append_assoc, List.append_assoc]
    rfl
  have hlen := length_le_quoteUnits s
  rw [htext, readString, if_pos rfl]
  refine readUnits_quoteUnits ?_ rest
  rw [List.length_append]
  omega

/-! ## Documents are read back -/

/-- A text that a value can start with. -/
def Starts (s : JsString) : Prop := ∃ c t, s = c :: t ∧ isSpace c = false ∧ c ≠ 0x5d ∧ c ≠ 0x7d

/-- A text that starts with a digit or a minus sign. -/
def StartsNumeral (s : JsString) : Prop := ∃ c t, s = c :: t ∧ (isDigit c = true ∨ c = 0x2d)

theorem starts_numeral {c : CodeUnit} (h : isDigit c = true ∨ c = 0x2d) :
    isSpace c = false ∧ c ≠ 0x5d ∧ c ≠ 0x7d := by
  rcases h with h | rfl
  · unfold isDigit at h
    rw [Bool.and_eq_true, decide_eq_true_eq, decide_eq_true_eq] at h
    have hne : ∀ d : CodeUnit, d.val < 0x30 ∨ 0x39 < d.val → c ≠ d := by
      rintro d hd rfl
      omega
    unfold isSpace
    simp only [hne 0x09 (by decide), hne 0x0a (by decide), hne 0x0d (by decide),
      hne 0x20 (by decide), hne 0x5d (by decide), hne 0x7d (by decide), decide_false,
      Bool.or_false, ne_eq, not_false_eq_true, and_self]
  · decide

theorem Starts.append {s : JsString} (h : Starts s) (t : JsString) : Starts (s ++ t) := by
  obtain ⟨c, s, rfl, hc⟩ := h
  exact ⟨c, s ++ t, rfl, hc⟩

theorem skipSpace_of_not {c : CodeUnit} (h : isSpace c = false) (s : JsString) :
    skipSpace (c :: s) = c :: s :=
  List.dropWhile_cons_of_neg (by rw [h]; decide)

/-- The first item does not close the sequence. -/
theorem head_skipSpace_ne {s : JsString} (h : Starts s) :
    (skipSpace s).head? ≠ some 0x5d ∧ (skipSpace s).head? ≠ some 0x7d := by
  obtain ⟨c, s, rfl, hc, h1, h2⟩ := h
  rw [skipSpace_of_not hc, List.head?_cons]
  exact ⟨fun e => h1 (Option.some.inj e), fun e => h2 (Option.some.inj e)⟩

theorem starts_intercalate {l : List JsString} (hne : l ≠ []) (h : ∀ s ∈ l, Starts s)
    (sep : JsString) : Starts (sep.intercalate l) := by
  cases l with
  | nil => exact absurd rfl hne
  | cons s l =>
    have hs := h s List.mem_cons_self
    cases l with
    | nil =>
      rw [List.intercalate_singleton]
      exact hs
    | cons t l =>
      rw [List.intercalate_cons_cons, List.append_assoc]
      exact hs.append _

/-- A spaced item without space around it. -/
theorem spaced_of {α : Type} {item : JsString → Option (α × JsString)} {s t : JsString} {x : α}
    (hs : Starts s) {d : CodeUnit} (hd : isSpace d = false)
    (h : item (s ++ d :: t) = some (x, d :: t)) :
    spaced item (s ++ d :: t) = some (x, d :: t) := by
  obtain ⟨c, s, rfl, hc, -⟩ := hs
  rw [List.cons_append] at h ⊢
  unfold spaced
  rw [skipSpace_of_not hc, h, Option.map_some, skipSpace_of_not hd]

theorem stops_of {c : CodeUnit} (h : isNumeralUnit c = false) (t : JsString) : Stops (c :: t) := by
  intro d hd
  rwa [Option.mem_some_iff.1 hd] at h

/-- The characters after a value in an array or an object. -/
theorem mark_spec {close : CodeUnit} (hclose : close = 0x5d ∨ close = 0x7d) {c : CodeUnit}
    (hc : c = 0x2c ∨ c = close) : isSpace c = false ∧ isNumeralUnit c = false := by
  rcases hc with rfl | rfl
  · decide
  · rcases hclose with rfl | rfl <;> decide

/-- The items of an array or an object are read back if shorter values are. -/
theorem readItems_text {α β : Type} {item : JsString → Option (α × JsString)} {close : CodeUnit}
    (hclose : close = 0x5d ∨ close = 0x7d) {text : β → JsString} {value : β → α} {xs : List β}
    (hne : xs ≠ [])
    (hitem : ∀ x ∈ xs, ∀ c rest, isSpace c = false → isNumeralUnit c = false →
      item (text x ++ c :: rest) = some (value x, c :: rest)) (rest : JsString) :
    Sequence.readItems item 0x2c close
        ([0x2c].intercalate (xs.map text) ++ close :: rest).length
        ([0x2c].intercalate (xs.map text) ++ close :: rest) = some (xs.map value, rest) := by
  have hlen := Sequence.length_le_length_intercalate (xs.map text) (0x2c : CodeUnit)
  rw [List.length_map] at hlen
  refine Sequence.readItems_intercalate ?_ hne ?_ (fun x hx c rest hc => ?_) rest
  · rcases hclose with rfl | rfl <;> decide
  · rw [List.length_append, List.length_cons]
    omega
  · obtain ⟨h1, h2⟩ := mark_spec hclose hc
    exact hitem x hx c rest h1 h2

section

open Doc (write memberText)

theorem readMember_of {ν : Type} {value : JsString → Option (Doc ν × JsString)} {k s : JsString}
    {x : Doc ν} {d : CodeUnit} {t : JsString} (hs : Starts s) (hd : isSpace d = false)
    (h : value (s ++ d :: t) = some (x, d :: t)) :
    readMember value (memberText (k, s) ++ d :: t) = some ((k, x), d :: t) := by
  have htext : memberText (k, s) ++ d :: t = quote k ++ 0x3a :: (s ++ d :: t) := by
    unfold memberText
    rw [List.append_assoc, List.append_assoc]
    rfl
  have hkey : spaced readString (quote k ++ 0x3a :: (s ++ d :: t)) =
      some (k, 0x3a :: (s ++ d :: t)) :=
    spaced_of ⟨0x22, _, rfl, by decide⟩ (by decide) (readString_quote ..)
  rw [htext, readMember, hkey]
  simp only [if_true]
  rw [spaced_of hs hd h]
  rfl

theorem write_arr_append (xs : List (Doc JsString)) (rest : JsString) :
    write (.arr xs) ++ rest = 0x5b :: ([0x2c].intercalate (xs.map write) ++ 0x5d :: rest) := by
  rw [Doc.write_arr, List.append_assoc, List.append_assoc]
  rfl

theorem write_obj_append (fs : List (JsString × Doc JsString)) (rest : JsString) :
    write (.obj fs) ++ rest = 0x7b ::
      ([0x2c].intercalate (fs.map fun f => memberText (f.1, write f.2)) ++ 0x7d :: rest) := by
  rw [Doc.write_obj, List.append_assoc, List.append_assoc]
  rfl

theorem length_write_lt {xs : List (Doc JsString)} {x : Doc JsString} (h : x ∈ xs) :
    (write x).length < (write (.arr xs)).length := by
  have hle := Sequence.length_le_intercalate (List.mem_map_of_mem (f := write) h) [0x2c]
  rw [Doc.write_arr, List.length_append, List.length_append]
  change _ < 1 + _ + 1
  omega

theorem length_member_lt {fs : List (JsString × Doc JsString)} {f : JsString × Doc JsString}
    (h : f ∈ fs) : (write f.2).length < (write (.obj fs)).length := by
  have hle := Sequence.length_le_intercalate
    (List.mem_map_of_mem (f := fun f => memberText (f.1, write f.2)) h) [0x2c]
  rw [Doc.write_obj, List.length_append, List.length_append]
  have htext : (memberText (f.1, write f.2)).length = (quote f.1).length + 1 +
      (write f.2).length := by
    rw [memberText, List.length_append, List.length_append]
    rfl
  change _ < 1 + _ + 1
  omega

variable {μ ν : Type} {text : μ → JsString} {val : μ → ν} {num : JsString → Option (ν × JsString)}

theorem starts_write (hstart : ∀ n, StartsNumeral (text n)) (t : Doc μ) :
    Starts (write (t.map text)) := by
  cases t with
  | null => exact ⟨_, _, rfl, by decide⟩
  | bool b => cases b <;> exact ⟨_, _, rfl, by decide⟩
  | str s => exact ⟨0x22, _, rfl, by decide⟩
  | arr xs => exact ⟨0x5b, _, by rw [Doc.map_arr, Doc.write_arr]; rfl, by decide⟩
  | obj fs => exact ⟨0x7b, _, by rw [Doc.map_obj, Doc.write_obj]; rfl, by decide⟩
  | num n =>
    obtain ⟨c, s, hs, hc⟩ := hstart n
    exact ⟨c, s, hs, starts_numeral hc⟩

/-- **What is written is read back**, whatever text follows, if that holds of the numerals. -/
theorem parseValue_write (hstart : ∀ n, StartsNumeral (text n))
    (hnum : ∀ n rest, Stops rest → num (text n ++ rest) = some (val n, rest)) {fuel : Nat}
    {t : Doc μ} (hfuel : (write (t.map text)).length < fuel) {rest : JsString} (hr : Stops rest) :
    parseValue num fuel (write (t.map text) ++ rest) = some (t.map val, rest) := by
  induction fuel generalizing t rest with
  | zero => exact absurd hfuel (Nat.not_lt_zero _)
  | succ fuel ih =>
    cases t with
    | null => rfl
    | bool b => cases b <;> rfl
    | str s =>
      have htext : quote s ++ rest = 0x22 :: (quoteUnits s ++ 0x22 :: rest) := by
        rw [quote, List.append_assoc, List.append_assoc]
        rfl
      have hread : readString (0x22 :: (quoteUnits s ++ 0x22 :: rest)) = some (s, rest) := by
        rw [← htext]
        exact readString_quote s rest
      change parseValue num (fuel + 1) (quote s ++ rest) = _
      rw [htext, parseValue, if_neg (by decide), if_neg (by decide), if_pos rfl, hread]
      rfl
    | num n =>
      have hread := hnum n rest hr
      obtain ⟨c, s, hs, hd⟩ := hstart n
      change parseValue num (fuel + 1) (text n ++ rest) = _
      rw [hs, List.cons_append] at hread ⊢
      have hne : c ≠ 0x5b ∧ c ≠ 0x7b ∧ c ≠ 0x22 := by
        refine ⟨?_, ?_, ?_⟩ <;> · rintro rfl; revert hd; decide
      rw [parseValue, if_neg hne.1, if_neg hne.2.1, if_neg hne.2.2, if_pos hd, hread]
      rfl
    | arr xs =>
      rw [Doc.map_arr] at hfuel ⊢
      rw [write_arr_append, parseValue, if_pos rfl, Doc.map_arr, List.map_map]
      by_cases hxs : xs = []
      · subst hxs
        rfl
      · have hstarts := (starts_intercalate (by simpa using hxs :
            xs.map (write ∘ Doc.map text) ≠ [])
          (List.forall_mem_map.2 fun x _ => starts_write hstart x) [0x2c]).append (0x5d :: rest)
        rw [if_neg (head_skipSpace_ne hstarts).1, readItems_text (.inl rfl) hxs ?_ rest]
        · rfl
        · intro x hx c rest hs hu
          have hlt := length_write_lt (List.mem_map_of_mem (f := Doc.map text) hx)
          exact spaced_of (starts_write hstart x) hs (ih (by omega) (stops_of hu rest))
    | obj fs =>
      rw [Doc.map_obj] at hfuel ⊢
      rw [write_obj_append, parseValue, if_neg (by decide), if_pos rfl, Doc.map_obj, List.map_map]
      by_cases hfs : fs = []
      · subst hfs
        rfl
      · have hstarts := (starts_intercalate (by simpa using hfs :
            fs.map ((fun f : JsString × Doc JsString => memberText (f.1, write f.2)) ∘
              fun g => (g.1, g.2.map text)) ≠ [])
          (List.forall_mem_map.2 fun f _ => ⟨0x22, _, rfl, by decide⟩) [0x2c]).append (0x7d :: rest)
        rw [if_neg (head_skipSpace_ne hstarts).2, readItems_text (.inr rfl) hfs ?_ rest]
        · rfl
        · intro f hf c rest hs hu
          have hlt := length_member_lt (List.mem_map_of_mem
            (f := fun g : JsString × Doc μ => (g.1, g.2.map text)) hf)
          change (write (f.2.map text)).length < _ at hlt
          exact readMember_of (starts_write hstart f.2) hs
            (ih (by omega) (stops_of hu rest))

theorem parseDoc_write (hstart : ∀ n, StartsNumeral (text n))
    (hnum : ∀ n rest, Stops rest → num (text n ++ rest) = some (val n, rest)) (t : Doc μ) :
    parseDoc num (write (t.map text)) = some (t.map val) := by
  have hread := parseValue_write hstart hnum (Nat.lt_succ_self (write (t.map text)).length)
    (nofun : Stops [])
  rw [List.append_nil] at hread
  obtain ⟨c, s, hs, hc, -⟩ := starts_write hstart t
  have hspaced : spaced (parseValue num ((write (t.map text)).length + 1)) (write (t.map text)) =
      some (t.map val, []) := by
    unfold spaced
    rw [show skipSpace (write (t.map text)) = write (t.map text) by
      rw [hs]; exact skipSpace_of_not hc s, hread]
    rfl
  rw [parseDoc, hspaced]

/-! ## Numerals read in two ways -/

section Map

variable {f : μ → ν} {num : JsString → Option (μ × JsString)}
  {num' : JsString → Option (ν × JsString)}

theorem spaced_map {α β : Type} {g : α → β} {item : JsString → Option (α × JsString)}
    {item' : JsString → Option (β × JsString)}
    (h : ∀ s, item' s = (item s).map (Prod.map g id)) (s : JsString) :
    spaced item' s = (spaced item s).map (Prod.map g id) := by
  unfold spaced
  rw [h, Option.map_map, Option.map_map]
  rfl

theorem readMember_map {value : JsString → Option (Doc μ × JsString)}
    {value' : JsString → Option (Doc ν × JsString)}
    (h : ∀ s, value' s = (value s).map (Prod.map (Doc.map f) id)) (s : JsString) :
    readMember value' s =
      (readMember value s).map (Prod.map (fun m => (m.1, m.2.map f)) id) := by
  unfold readMember
  cases spaced readString s with
  | none => rfl
  | some p =>
    obtain ⟨k, rest⟩ := p
    cases rest with
    | nil => rfl
    | cons c rest =>
      by_cases hc : c = 0x3a
      · simp only [if_pos hc]
        rw [spaced_map h, Option.map_map, Option.map_map]
        rfl
      · simp only [if_neg hc]
        rfl

theorem readWord_map (s : JsString) :
    (readWord s : Option (Doc ν × JsString)) =
      (readWord s).map (Prod.map (Doc.map f) id) := by
  unfold readWord
  split_ifs <;> rfl

/-- **Numerals that are read through `f` make values that are read through `f`.** -/
theorem parseValue_map (h : ∀ s, num' s = (num s).map (Prod.map f id)) (fuel : Nat)
    (s : JsString) :
    parseValue num' fuel s = (parseValue num fuel s).map (Prod.map (Doc.map f) id) := by
  induction fuel generalizing s with
  | zero => rfl
  | succ fuel ih =>
    cases s with
    | nil => rfl
    | cons c s =>
      unfold parseValue
      by_cases harr : c = 0x5b
      · rw [if_pos harr, if_pos harr]
        by_cases hempty : (skipSpace s).head? = some 0x5d
        · rw [if_pos hempty, if_pos hempty]
          rfl
        · rw [if_neg hempty, if_neg hempty, Sequence.readItems_map (spaced_map ih),
            Option.map_map, Option.map_map]
          refine congrArg (Option.map · _) (funext fun p => ?_)
          exact congrArg (·, p.2) (Doc.map_arr f p.1).symm
      rw [if_neg harr, if_neg harr]
      by_cases hobj : c = 0x7b
      · rw [if_pos hobj, if_pos hobj]
        by_cases hempty : (skipSpace s).head? = some 0x7d
        · rw [if_pos hempty, if_pos hempty]
          rfl
        · rw [if_neg hempty, if_neg hempty, Sequence.readItems_map (readMember_map ih),
            Option.map_map, Option.map_map]
          refine congrArg (Option.map · _) (funext fun p => ?_)
          exact congrArg (·, p.2) (Doc.map_obj f p.1).symm
      rw [if_neg hobj, if_neg hobj]
      by_cases hstr : c = 0x22
      · rw [if_pos hstr, if_pos hstr, Option.map_map]
        rfl
      rw [if_neg hstr, if_neg hstr]
      by_cases hnum : isDigit c = true ∨ c = 0x2d
      · rw [if_pos hnum, if_pos hnum, h, Option.map_map, Option.map_map]
        rfl
      · rw [if_neg hnum, if_neg hnum]
        exact readWord_map _

theorem parseDoc_map (h : ∀ s, num' s = (num s).map (Prod.map f id)) (s : JsString) :
    parseDoc num' s = (parseDoc num s).map (Doc.map f) := by
  unfold parseDoc
  rw [spaced_map (parseValue_map h _)]
  cases spaced (parseValue num (s.length + 1)) s with
  | none => rfl
  | some p =>
    obtain ⟨t, rest⟩ := p
    cases rest with
    | nil => rfl
    | cons c rest => rfl

end Map

/-- A text that can be a numeral. -/
def IsNumeral (s : JsString) : Prop := StartsNumeral s ∧ s.all isNumeralUnit = true

/-- A document is its text, numeral by numeral. -/
theorem write_inj {f g : μ → JsString} (hf : ∀ n, IsNumeral (f n)) (hg : ∀ n, IsNumeral (g n))
    {t : Doc μ} (h : (t.map f).write = (t.map g).write) : t.map f = t.map g := by
  have hread : ∀ f : μ → JsString, (∀ n, IsNumeral (f n)) →
      parseDoc (fun s => some (s.takeWhile isNumeralUnit, s.dropWhile isNumeralUnit))
        (t.map f).write = some (t.map f) := by
    intro f hf
    refine parseDoc_write (fun n => (hf n).1) (fun n rest hr => ?_) t
    rw [takeWhile_of_all (hf n).2 hr, dropWhile_of_all (hf n).2 hr]
  have hf' := hread f hf
  rw [h, hread g hg] at hf'
  exact (Option.some.inj hf').symm

end

/-! ## Values are read back -/

/-- A finite number. -/
abbrev FiniteNumber := {x : Number // x.isFinite = true}

mutual

/-- The document that a value is written as. -/
def toDoc : Json → Doc FiniteNumber
  | arr xs => .arr (toDocElems xs)
  | obj fs => .obj (toDocFields fs)
  | null => .null
  | bool b => .bool b
  | num n => if h : n.isFinite = true then .num ⟨n, h⟩ else .null
  | str s => .str s

def toDocElems : List Json → List (Doc FiniteNumber)
  | [] => []
  | x :: rest => toDoc x :: toDocElems rest

def toDocFields : List (JsString × Json) → List (JsString × Doc FiniteNumber)
  | [] => []
  | (k, x) :: rest => (k, toDoc x) :: toDocFields rest

end

theorem toDocElems_eq (xs : List Json) : toDocElems xs = xs.map toDoc := by
  induction xs with
  | nil => rfl
  | cons x xs ih => rw [toDocElems, ih, List.map_cons]

theorem toDocFields_eq (fs : List (JsString × Json)) :
    toDocFields fs = fs.map fun f => (f.1, toDoc f.2) := by
  induction fs with
  | nil => rfl
  | cons f fs ih => rw [toDocFields, ih, List.map_cons]

/-- The document of a value as text. -/
def docText (v : Json) : Doc JsString := v.toDoc.map fun x => x.1.toString

mutual

/-- **`JSON.stringify` writes the document.** -/
theorem stringify_eq_write : (v : Json) → stringify v = v.docText.write
  | .arr xs => by
    rw [stringify, docText, toDoc, Doc.map_arr, Doc.write_arr, stringifyElems_eq_write xs]
  | .obj fs => by
    rw [stringify, docText, toDoc, Doc.map_obj, Doc.write_obj, stringifyFields_eq_write fs]
  | .num n => by
    rw [stringify, stringifyScalar, docText, toDoc]
    split <;> rfl
  | .null => rfl
  | .bool _ => rfl
  | .str _ => rfl

theorem stringifyElems_eq_write : (xs : List Json) → stringifyElems xs =
    [0x2c].intercalate (((toDocElems xs).map (Doc.map fun x => x.1.toString)).map Doc.write)
  | [] => rfl
  | [x] => by
    rw [stringifyElems, stringify_eq_write x]
    exact List.intercalate_singleton.symm
  | x :: y :: rest => by
    rw [stringifyElems, stringify_eq_write x, stringifyElems_eq_write (y :: rest)]
    simp only [toDocElems, List.map_cons, List.intercalate_cons_cons]
    rfl

theorem stringifyFields_eq_write : (fs : List (JsString × Json)) → stringifyFields fs =
    [0x2c].intercalate (((toDocFields fs).map fun g => (g.1, g.2.map fun x => x.1.toString)).map
      fun f => Doc.memberText (f.1, f.2.write))
  | [] => rfl
  | [(k, x)] => by
    rw [stringifyFields, stringify_eq_write x]
    exact List.intercalate_singleton.symm
  | (k, x) :: (j, y) :: rest => by
    rw [stringifyFields, stringify_eq_write x, stringifyFields_eq_write ((j, y) :: rest)]
    simp only [toDocFields, List.map_cons, List.intercalate_cons_cons]
    rfl

end

mutual

/-- A value whose objects list their properties as the objects of an engine do. -/
def ordered : Json → Json
  | arr xs => arr (orderedElems xs)
  | obj fs => obj (ownFields (orderedFields fs))
  | null => null
  | bool b => bool b
  | num n => num n
  | str s => str s

def orderedElems : List Json → List Json
  | [] => []
  | x :: rest => ordered x :: orderedElems rest

def orderedFields : List (JsString × Json) → List (JsString × Json)
  | [] => []
  | (k, x) :: rest => (k, ordered x) :: orderedFields rest

end

theorem orderedElems_reparsed (xs : List Json) :
    orderedElems (reparsedElems xs) = xs.map fun x => x.reparsed.ordered := by
  induction xs with
  | nil => rfl
  | cons x xs ih => rw [reparsedElems, orderedElems, ih, List.map_cons]

theorem orderedFields_reparsed (fs : List (JsString × Json)) :
    orderedFields (reparsedFields fs) = fs.map fun f => (f.1, f.2.reparsed.ordered) := by
  induction fs with
  | nil => rfl
  | cons f fs ih => rw [reparsedFields, orderedFields, ih, List.map_cons]

theorem starts_toString (x : FiniteNumber) : StartsNumeral x.1.toString := by
  have hread := Number.readNumber_toString x.2 (nofun : Stops [])
  rw [List.append_nil] at hread
  obtain ⟨c, hc, hd⟩ := Number.head_of_readNumber hread
  obtain ⟨t, ht⟩ := List.head?_eq_some_iff.1 hc
  exact ⟨c, t, ht, hd⟩

/-- A number as it is read back. -/
def unsigned (x : Number) : Number := if x.mantissa = 0 then ⟨0⟩ else x

mutual

theorem ofDoc_toDoc : (v : Json) →
    ofDoc (v.toDoc.map fun x => unsigned x.1) = v.reparsed.ordered
  | .arr xs => by
    rw [toDoc, Doc.map_arr, reparsed, ordered]
    exact (Doc.fold_arr _ _).trans (congrArg Json.arr (ofDoc_toDocElems xs))
  | .obj fs => by
    rw [toDoc, Doc.map_obj, reparsed, ordered]
    exact (Doc.fold_obj _ _).trans (congrArg (Json.obj ∘ ownFields) (ofDoc_toDocFields fs))
  | .num n => by
    rw [toDoc, reparsed]
    split
    · rfl
    · rfl
  | .null => rfl
  | .bool _ => rfl
  | .str _ => rfl

theorem ofDoc_toDocElems : (xs : List Json) →
    ((toDocElems xs).map (Doc.map fun x => unsigned x.1)).map ofDoc =
      orderedElems (reparsedElems xs)
  | [] => rfl
  | x :: rest => by
    rw [toDocElems, List.map_cons, List.map_cons, ofDoc_toDoc x, ofDoc_toDocElems rest]
    rfl

theorem ofDoc_toDocFields : (fs : List (JsString × Json)) →
    (((toDocFields fs).map fun g => (g.1, g.2.map fun x => unsigned x.1)).map fun g =>
      (g.1, ofDoc g.2)) = orderedFields (reparsedFields fs)
  | [] => rfl
  | (k, x) :: rest => by
    rw [toDocFields, List.map_cons, List.map_cons, ofDoc_toDoc x, ofDoc_toDocFields rest]
    rfl

end

/-- **`JSON.parse(JSON.stringify(v))`.** -/
theorem parse_stringify (v : Json) : parse (stringify v) = some v.reparsed.ordered := by
  have hread := parseDoc_write starts_toString
    (fun x _ hr => Number.readNumber_toString x.2 hr) v.toDoc
  rw [parse, stringify_eq_write, docText, hread]
  exact congrArg some (ofDoc_toDoc v)

end TangentFeed.Json
