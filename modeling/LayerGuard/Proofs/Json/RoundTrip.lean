import LayerGuard.Json.Printer
import LayerGuard.Json.Reader

/-! # Reading what was written

Every value comes back when its text is read, whatever the layout, as long as a layout writes
nothing but blanks between the tokens. A number is read as far as it goes, so the laws are stated
for a text with a rest behind it that does not continue a number.
-/

namespace LayerGuard

/-! ## Digits -/

namespace Decimal

def digitChars (ds : List (Fin 10)) : List Char := ds.map fun d => Nat.digitChar d.val

theorem digit?_digitChar (d : Fin 10) : digit? (Nat.digitChar d.val) = some d := by
  have code := Nat.toNat_digitChar_of_lt_ten d.isLt
  have bound := d.isLt
  rw [digit?, dif_pos ⟨by omega, by omega⟩, Option.some_inj, Fin.mk.injEq]
  omega

theorem digits_append (ds : List (Fin 10)) {rest : List Char}
    (stops : ∀ c, rest.head? = some c → digit? c = none) :
    digits (digitChars ds ++ rest) = (ds, rest) := by
  induction ds with
  | nil =>
    cases rest with
    | nil => rfl
    | cons c rest =>
      change digits (c :: rest) = _
      rw [digits, stops c rfl]
  | cons d ds ih =>
    change digits (Nat.digitChar d.val :: (digitChars ds ++ rest)) = _
    rw [digits, digit?_digitChar, ih]

theorem natOfDigits_concat (ds : List (Fin 10)) (d : Fin 10) :
    natOfDigits (ds ++ [d]) = natOfDigits ds * 10 + d.val := by
  rw [natOfDigits, List.foldl_append]
  rfl

/-- A natural number is written with at least one digit, and with a leading zero only if it is
zero. -/
theorem exists_digits (n : Nat) :
    ∃ d ds, Nat.toDigits 10 n = digitChars (d :: ds) ∧ natOfDigits (d :: ds) = n ∧
      (d = 0 → ds = []) := by
  induction n using Nat.strongRecOn with
  | ind n ih =>
    rw [Nat.toDigits_eq_if (by decide)]
    split
    · next small => exact ⟨⟨n, small⟩, [], rfl, by simp [natOfDigits], fun _ => rfl⟩
    · next large =>
      obtain ⟨d, ds, written, value, leading⟩ := ih (n / 10) (by omega)
      have last : n % 10 < 10 := Nat.mod_lt _ (by decide)
      refine ⟨d, ds ++ [⟨n % 10, last⟩], ?_, ?_, ?_⟩
      · rw [written]
        simp [digitChars]
      · rw [← List.cons_append, natOfDigits_concat, value]
        exact Nat.div_add_mod' n 10
      · rintro rfl
        rw [leading rfl] at value
        have zero : n / 10 = 0 := value.symm
        omega

theorem digitChar_ne_sign (d : Fin 10) : Nat.digitChar d.val ≠ '-' ∧ Nat.digitChar d.val ≠ '+' :=
  ⟨Nat.digitChar_ne '-' rfl, Nat.digitChar_ne '+' rfl⟩

/-- A number without a sign is not negative. -/
theorem sign_toDigits (n : Nat) (rest : List Char) :
    sign (Nat.toDigits 10 n ++ rest) = (false, Nat.toDigits 10 n ++ rest) := by
  obtain ⟨d, ds, written, _, _⟩ := exists_digits n
  obtain ⟨notMinus, notPlus⟩ := digitChar_ne_sign d
  rw [written, digitChars, List.map_cons, List.cons_append, sign.eq_def]
  split
  · next same => exact (notMinus (List.cons.inj same).1).elim
  · next same => exact (notPlus (List.cons.inj same).1).elim
  · rfl

end Decimal

namespace Json

open Decimal

/-! ## Numbers -/

/-- The characters that continue a number. -/
def continuesNumber (c : Char) : Bool :=
  (digit? c).isSome || c == '.' || c == 'e' || c == 'E'

/-- A text that does not begin with a character that continues a number. -/
def EndsNumber (rest : List Char) : Prop := ∀ c, rest.head? = some c → continuesNumber c = false

def fractionChars (fraction : List (Fin 10)) : List Char :=
  if fraction.isEmpty then [] else '.' :: digitChars fraction

def exponentChars (exponent : Option Int) : List Char :=
  match exponent with
  | none => []
  | some e => 'e' :: (if e < 0 then ['-'] else []) ++ Nat.toDigits 10 e.natAbs

theorem writeNumber_eq (n : Decimal) :
    writeNumber n = (if n.negative then ['-'] else []) ++
      (Nat.toDigits 10 n.whole ++ (fractionChars n.fraction ++ exponentChars n.exponent)) := by
  simp only [writeNumber, List.append_assoc]
  rfl

theorem EndsNumber.stops {rest : List Char} (ends : EndsNumber rest) (c : Char)
    (first : rest.head? = some c) : digit? c = none ∧ c ≠ '.' := by
  have stops := ends c first
  simp only [continuesNumber, Bool.or_eq_false_iff, Option.isSome_eq_false_iff,
    Option.isNone_iff_eq_none, beq_eq_false_iff_ne] at stops
  exact stops.1.1

theorem whole?_append (n : Nat) {rest : List Char}
    (stops : ∀ c, rest.head? = some c → digit? c = none) :
    whole? (Nat.toDigits 10 n ++ rest) = some (n, rest) := by
  obtain ⟨d, ds, written, value, leading⟩ := exists_digits n
  rw [written, whole?, digits_append _ stops]
  dsimp only
  rw [value, if_neg]
  simp only [Bool.and_eq_true, decide_eq_true_eq, Bool.not_eq_true', not_and, Bool.not_eq_false]
  intro zero
  rw [leading zero]
  rfl

theorem fraction?_append (fraction : List (Fin 10)) {rest : List Char}
    (stops : ∀ c, rest.head? = some c → digit? c = none ∧ c ≠ '.') :
    fraction? (fractionChars fraction ++ rest) = some (fraction, rest) := by
  cases fraction with
  | nil =>
    change fraction? rest = _
    unfold fraction?
    split
    · exact ((stops '.' rfl).2 rfl).elim
    · rfl
  | cons d ds =>
    change fraction? ('.' :: (digitChars (d :: ds) ++ rest)) = _
    rw [fraction?, digits_append _ fun c first => (stops c first).1]

theorem exponent?_append (exponent : Option Int) {rest : List Char} (ends : EndsNumber rest) :
    exponent? (exponentChars exponent ++ rest) = some (exponent, rest) := by
  cases exponent with
  | none =>
    change exponent? rest = _
    cases rest with
    | nil => rfl
    | cons c rest =>
      have stops := ends c rfl
      simp only [continuesNumber, Bool.or_eq_false_iff] at stops
      rw [exponent?, stops.1.2, stops.2]
      rfl
  | some e =>
    obtain ⟨d, ds, written, value, _⟩ := exists_digits e.natAbs
    have digits := digits_append (d :: ds) fun c first => (ends.stops c first).1
    by_cases negative : e < 0
    · have chars : exponentChars (some e) ++ rest =
          'e' :: '-' :: (Nat.toDigits 10 e.natAbs ++ rest) := by
        simp [exponentChars, negative]
      rw [chars, exponent?]
      simp only [sign, written, digits, value]
      have magnitude : -(e.natAbs : Int) = e := by omega
      change some (some (-(e.natAbs : Int)), rest) = _
      rw [magnitude]
    · have chars : exponentChars (some e) ++ rest = 'e' :: (Nat.toDigits 10 e.natAbs ++ rest) := by
        simp [exponentChars, negative]
      rw [chars, exponent?]
      simp only [sign_toDigits]
      rw [written, digits]
      simp only [value]
      have magnitude : (e.natAbs : Int) = e := by omega
      change some (some (e.natAbs : Int), rest) = _
      rw [magnitude]

theorem exponentChars_stops (exponent : Option Int) {rest : List Char} (ends : EndsNumber rest)
    (c : Char) (first : (exponentChars exponent ++ rest).head? = some c) :
    digit? c = none ∧ c ≠ '.' := by
  cases exponent with
  | none => exact ends.stops c first
  | some e =>
    cases first
    exact ⟨rfl, by decide⟩

theorem fractionChars_stops (fraction : List (Fin 10)) {rest : List Char}
    (stops : ∀ c, rest.head? = some c → digit? c = none ∧ c ≠ '.') (c : Char)
    (first : (fractionChars fraction ++ rest).head? = some c) : digit? c = none := by
  cases fraction with
  | nil => exact (stops c first).1
  | cons d ds =>
    cases first
    rfl

/-- A written number is read to its end. -/
theorem number?_append (n : Decimal) {rest : List Char} (ends : EndsNumber rest) :
    number? (writeNumber n ++ rest) = some (n, rest) := by
  obtain ⟨negative, whole, fraction, exponent⟩ := n
  have behind := exponentChars_stops exponent ends
  have first := whole?_append whole (fractionChars_stops fraction behind)
  have second := fraction?_append fraction behind
  have third := exponent?_append exponent ends
  rw [writeNumber_eq]
  cases negative with
  | true =>
    simp only [↓reduceIte, List.cons_append, List.nil_append, List.append_assoc]
    simp [number?, first, second, third]
  | false =>
    simp only [Bool.false_eq_true, ↓reduceIte, List.nil_append, List.append_assoc]
    rw [number?]
    · simp [first, second, third]
    · intro rest' minus
      have signless := sign_toDigits whole (fractionChars fraction ++ (exponentChars exponent ++ rest))
      rw [minus] at signless
      cases signless

/-! ## Texts -/

theorem hexValue?_hexDigit {n : Nat} (small : n < 16) : hexValue? (hexDigit n) = some n := by
  match n, small with
  | 0, _ | 1, _ | 2, _ | 3, _ | 4, _ | 5, _ | 6, _ | 7, _ => rfl
  | 8, _ | 9, _ | 10, _ | 11, _ | 12, _ | 13, _ | 14, _ | 15, _ => rfl
  | n + 16, large => omega

theorem natOfHex?_control {n : Nat} (small : n < 32) :
    natOfHex? ['0', '0', hexDigit (n / 16), hexDigit (n % 16)] = some n := by
  have high := hexValue?_hexDigit (n := n / 16) (by omega)
  have low := hexValue?_hexDigit (n := n % 16) (by omega)
  have zero : hexValue? '0' = some 0 := rfl
  have value : n / 16 * 16 + n % 16 = n := Nat.div_add_mod' n 16
  simp [natOfHex?, high, low, zero, value]

/-- Each character of a quoted text is read as itself, escaped or not. -/
theorem textUnits?_escapeChar (read : List TextUnit) (c : Char) (rest : List Char) :
    textUnits? read (escapeChar c ++ rest) = textUnits? (.char c :: read) rest := by
  have code {n : Nat} (same : (c.toNat == n) = true) : c = Char.ofNat n := by
    rw [← beq_iff_eq.mp same, Char.ofNat_toNat]
  rw [escapeChar]
  split
  · next same => rw [beq_iff_eq.mp same]; rfl
  split
  · next same => rw [beq_iff_eq.mp same]; rfl
  split
  · next same => rw [beq_iff_eq.mp same]; rfl
  split
  · next same => rw [beq_iff_eq.mp same]; rfl
  split
  · next same => rw [beq_iff_eq.mp same]; rfl
  split
  · next same => rw [code same]; rfl
  split
  · next same => rw [code same]; rfl
  split
  · next control =>
    have unit : TextUnit.ofCode c.toNat = .char c := by
      rw [TextUnit.ofCode, Char.ofNat_toNat, if_neg]
      simp only [Bool.and_eq_true, decide_eq_true_eq, not_and]
      omega
    simp only [List.cons_append, List.nil_append]
    rw [textUnits?, natOfHex?_control control]
    dsimp only
    rw [unit]
  · next quote escape _ _ _ _ _ control =>
    rw [List.singleton_append, textUnits?.eq_def]
    split
    · next same => cases same
    · next same => exact (quote (beq_iff_eq.mpr (List.cons.inj same).1)).elim
    · next same => exact (escape (beq_iff_eq.mpr (List.cons.inj same).1)).elim
    · next same => exact (escape (beq_iff_eq.mpr (List.cons.inj same).1)).elim
    · next same =>
      cases same
      rw [if_neg control]

theorem textUnits?_flatMap (read : List TextUnit) (cs rest : List Char) :
    textUnits? read (cs.flatMap escapeChar ++ '"' :: rest) =
      some (read.reverse ++ cs.map .char, rest) := by
  induction cs generalizing read with
  | nil => simp [textUnits?]
  | cons c cs ih =>
    rw [List.flatMap_cons, List.append_assoc, textUnits?_escapeChar, ih]
    simp

theorem joinHalves?_chars (read cs : List Char) :
    joinHalves? read (cs.map .char) = some (read.reverse ++ cs) := by
  induction cs generalizing read with
  | nil => simp [joinHalves?]
  | cons c cs ih =>
    rw [List.map_cons, joinHalves?, ih]
    simp

/-- A quoted text is read to its closing quote. -/
theorem quoted?_quote (s : String) (rest : List Char) :
    quoted? (s.toList.flatMap escapeChar ++ '"' :: rest) = some (some s, rest) := by
  rw [quoted?, textUnits?_flatMap]
  simp [joinHalves?_chars]

/-! ## Layouts -/

/-- A layout that writes nothing but blanks. -/
structure Layout.Blank (layout : Layout) : Prop where
  breakAt : ∀ depth, ∀ c ∈ layout.breakAt depth, isJsonBlank c = true
  afterColon : ∀ c ∈ layout.afterColon, isJsonBlank c = true

theorem Layout.blank_compact : Layout.compact.Blank where
  breakAt _ _ member := by cases member
  afterColon _ member := by cases member

theorem Layout.blank_indented : Layout.indented.Blank where
  breakAt depth c member := by
    rcases List.mem_cons.mp member with rfl | blank
    · rfl
    · rw [List.eq_of_mem_replicate blank]
      rfl
  afterColon c member := by
    rw [List.mem_singleton.mp member]
    rfl

theorem skipBlanks_append {blanks : List Char} (blank : ∀ c ∈ blanks, isJsonBlank c = true)
    (cs : List Char) : skipBlanks (blanks ++ cs) = skipBlanks cs :=
  List.dropWhile_append_of_pos blank

theorem skipBlanks_cons {c : Char} (solid : isJsonBlank c = false) (cs : List Char) :
    skipBlanks (c :: cs) = c :: cs := by
  rw [skipBlanks, List.dropWhile_cons, solid]
  rfl

theorem endsNumber_cons {c : Char} (stops : continuesNumber c = false) (rest : List Char) :
    EndsNumber (c :: rest) := by
  intro d first
  cases first
  exact stops

theorem EndsNumber.blanks_append {blanks rest : List Char} (ends : EndsNumber rest)
    (blank : ∀ c ∈ blanks, isJsonBlank c = true) : EndsNumber (blanks ++ rest) := by
  cases blanks with
  | nil => exact ends
  | cons c blanks =>
    apply endsNumber_cons
    have here := blank c (List.mem_cons_self ..)
    simp only [isJsonBlank, Bool.or_eq_true, beq_iff_eq] at here
    rcases here with ((rfl | rfl) | rfl) | rfl <;> rfl

/-! ## Drafts of values -/

mutual

/-- The draft of a text that is a value throughout. -/
def toDraft : Json → Draft
  | .null => .null
  | .bool b => .bool b
  | .number n => .number n
  | .string s => .string (some s)
  | .array items => .array (toDrafts items)
  | .object fields => .object (toDraftFields fields)

def toDrafts : List Json → List Draft
  | [] => []
  | item :: items => item.toDraft :: toDrafts items

def toDraftFields : List (String × Json) → List (Option String × Draft)
  | [] => []
  | (key, value) :: fields => (some key, value.toDraft) :: toDraftFields fields

end

mutual

theorem complete?_toDraft : (value : Json) → value.toDraft.complete? = some value
  | .null => rfl
  | .bool _ => rfl
  | .number _ => rfl
  | .string _ => rfl
  | .array items => by
    rw [toDraft, Draft.complete?, completeItems?_toDrafts items]
    rfl
  | .object fields => by
    rw [toDraft, Draft.complete?, completeFields?_toDraftFields fields]
    rfl

theorem completeItems?_toDrafts :
    (items : List Json) → Draft.completeItems? (toDrafts items) = some items
  | [] => rfl
  | item :: items => by
    rw [toDrafts, Draft.completeItems?, complete?_toDraft item, completeItems?_toDrafts items]
    rfl

theorem completeFields?_toDraftFields :
    (fields : List (String × Json)) → Draft.completeFields? (toDraftFields fields) = some fields
  | [] => rfl
  | (key, value) :: fields => by
    rw [toDraftFields, Draft.completeFields?, complete?_toDraft value,
      completeFields?_toDraftFields fields]
    rfl

end

/-! ## Values -/

/-- Blanks in front of a value are passed over. -/
theorem readValue_blanks (fuel : Nat) {blanks : List Char}
    (blank : ∀ c ∈ blanks, isJsonBlank c = true) (cs : List Char) :
    readValue fuel (blanks ++ cs) = readValue fuel cs := by
  cases fuel with
  | zero => rfl
  | succ fuel => rw [readValue, readValue, skipBlanks_append blank]

theorem readWord_append (word : List Char) (value : Draft) (rest : List Char) :
    readWord word value (word ++ rest) = (value, some rest) := by
  rw [readWord, if_pos (List.isPrefixOf_iff_prefix.mpr (List.prefix_append word rest)),
    List.drop_left]

theorem readValue_null (fuel : Nat) (rest : List Char) :
    readValue (fuel + 1) ("null".toList ++ rest) = (.null, some rest) :=
  readWord_append "null".toList .null rest

theorem readValue_bool (fuel : Nat) (b : Bool) (rest : List Char) :
    readValue (fuel + 1) ((if b then "true".toList else "false".toList) ++ rest) =
      (.bool b, some rest) := by
  cases b with
  | true => exact readWord_append "true".toList (.bool true) rest
  | false => exact readWord_append "false".toList (.bool false) rest

theorem readValue_string (fuel : Nat) (s : String) (rest : List Char) :
    readValue (fuel + 1) (quote s ++ rest) = (.string (some s), some rest) := by
  have text : quote s ++ rest = '"' :: (s.toList.flatMap escapeChar ++ '"' :: rest) := by
    simp [quote]
  rw [text, readValue, skipBlanks_cons rfl]
  simp only [beq_self_eq_true, ↓reduceIte, quoted?_quote]

/-- The characters that begin a number. -/
def beginsNumber (c : Char) : Bool := c == '-' || (digit? c).isSome

theorem exists_writeNumber_cons (n : Decimal) :
    ∃ c cs, writeNumber n = c :: cs ∧ beginsNumber c = true := by
  obtain ⟨d, ds, written, _, _⟩ := exists_digits n.whole
  rw [writeNumber_eq, written]
  cases n.negative with
  | true => exact ⟨'-', _, rfl, rfl⟩
  | false => exact ⟨Nat.digitChar d.val, _, rfl, by simp [beginsNumber, digit?_digitChar]⟩

/-- No other character begins a number. -/
theorem beq_eq_false_of_beginsNumber {c other : Char} (begins : beginsNumber c = true)
    (differs : beginsNumber other = false) : (c == other) = false := by
  rw [beq_eq_false_iff_ne]
  rintro rfl
  rw [begins] at differs
  contradiction

theorem isJsonBlank_of_beginsNumber {c : Char} (begins : beginsNumber c = true) :
    isJsonBlank c = false := by
  have other {d : Char} (differs : beginsNumber d = false) := beq_eq_false_of_beginsNumber begins differs
  simp only [isJsonBlank, Bool.or_eq_false_iff]
  exact ⟨⟨⟨other rfl, other rfl⟩, other rfl⟩, other rfl⟩

theorem readValue_number (fuel : Nat) (n : Decimal) {rest : List Char} (ends : EndsNumber rest) :
    readValue (fuel + 1) (writeNumber n ++ rest) = (.number n, some rest) := by
  obtain ⟨c, cs, written, begins⟩ := exists_writeNumber_cons n
  have other {d : Char} (differs : beginsNumber d = false) := beq_eq_false_of_beginsNumber begins differs
  have read := number?_append n ends
  rw [written, List.cons_append] at read ⊢
  rw [readValue, skipBlanks_cons (isJsonBlank_of_beginsNumber begins)]
  dsimp only
  rw [other (d := '"') rfl, other (d := '[') rfl, other (d := '\x7b') rfl, other (d := 'n') rfl,
    other (d := 't') rfl, other (d := 'f') rfl, read]
  rfl

/-- A written value begins with a character that is neither a blank nor a closing bracket. -/
theorem exists_write_cons (layout : Layout) (depth : Nat) (value : Json) :
    ∃ c cs, value.write layout depth = c :: cs ∧ isJsonBlank c = false ∧ c ≠ ']' := by
  rcases value with _ | (_ | _) | n | s | (_ | ⟨item, items⟩) | (_ | ⟨⟨key, value⟩, fields⟩)
  · exact ⟨'n', _, by rw [write]; rfl, rfl, by decide⟩
  · exact ⟨'f', _, by rw [write]; rfl, rfl, by decide⟩
  · exact ⟨'t', _, by rw [write]; rfl, rfl, by decide⟩
  · obtain ⟨c, cs, written, begins⟩ := exists_writeNumber_cons n
    refine ⟨c, cs, by rw [write, written], isJsonBlank_of_beginsNumber begins, ?_⟩
    exact beq_eq_false_iff_ne.mp (beq_eq_false_of_beginsNumber begins rfl)
  · exact ⟨'"', _, by rw [write]; rfl, rfl, by decide⟩
  · exact ⟨'[', _, by rw [write], rfl, by decide⟩
  · exact ⟨'[', _, by rw [write]; rfl, rfl, by decide⟩
  · exact ⟨'\x7b', _, by rw [write], rfl, by decide⟩
  · exact ⟨'\x7b', _, by rw [write]; rfl, rfl, by decide⟩

/-- An array that is not empty is read from its first item on. -/
theorem readValue_bracket (fuel : Nat) {blanks cs : List Char} {c : Char}
    (blank : ∀ c ∈ blanks, isJsonBlank c = true) (solid : isJsonBlank c = false) (filled : c ≠ ']') :
    readValue (fuel + 1) ('[' :: (blanks ++ c :: cs)) =
      (.array (readItems fuel (c :: cs)).1, (readItems fuel (c :: cs)).2) := by
  rw [readValue, skipBlanks_cons rfl]
  simp only [Char.reduceBEq, Bool.false_eq_true, ↓reduceIte, skipBlanks_append blank,
    skipBlanks_cons solid]
  split
  · next same => exact (filled (List.cons.inj same).1).elim
  · rfl

/-- An object that is not empty is read from its first key on. -/
theorem readValue_brace (fuel : Nat) {blanks : List Char}
    (blank : ∀ c ∈ blanks, isJsonBlank c = true) (key : String) (cs : List Char) :
    readValue (fuel + 1) ('\x7b' :: (blanks ++ (quote key ++ cs))) =
      (.object (readFields fuel (quote key ++ cs)).1, (readFields fuel (quote key ++ cs)).2) := by
  rw [readValue, skipBlanks_cons rfl]
  simp only [Char.reduceBEq, Bool.false_eq_true, ↓reduceIte, skipBlanks_append blank]
  rfl

/-- The key of a field is read up to the value behind it. -/
theorem readFields_key (fuel : Nat) {blanks : List Char}
    (blank : ∀ c ∈ blanks, isJsonBlank c = true) (key : String) (cs : List Char) :
    readFields (fuel + 1) (blanks ++ (quote key ++ ':' :: cs)) =
      match readValue fuel cs with
      | (value, none) => ([(some key, value)], none)
      | (value, some rest) =>
        match skipBlanks rest with
        | ',' :: rest => ((some key, value) :: (readFields fuel rest).1, (readFields fuel rest).2)
        | '\x7d' :: rest => ([(some key, value)], some rest)
        | _ => ([(some key, value), (none, .broken)], none) := by
  have text : quote key ++ ':' :: cs = '"' :: (key.toList.flatMap escapeChar ++ '"' :: ':' :: cs) := by
    simp [quote]
  rw [text, readFields, skipBlanks_append blank, skipBlanks_cons rfl]
  simp only [quoted?_quote]
  rw [skipBlanks_cons rfl]
  rfl

theorem endsNumber_writeItems (layout : Layout) (depth : Nat) (items : List Json)
    {close : List Char} (closing : ∀ c ∈ close, isJsonBlank c = true) (rest : List Char) :
    EndsNumber (writeItems layout depth items ++ (close ++ ']' :: rest)) := by
  cases items with
  | nil =>
    rw [writeItems]
    exact (endsNumber_cons rfl rest).blanks_append closing
  | cons item items =>
    rw [writeItems]
    exact endsNumber_cons rfl _

theorem endsNumber_writeFields (layout : Layout) (depth : Nat) (fields : List (String × Json))
    {close : List Char} (closing : ∀ c ∈ close, isJsonBlank c = true) (rest : List Char) :
    EndsNumber (writeFields layout depth fields ++ (close ++ '\x7d' :: rest)) := by
  cases fields with
  | nil =>
    rw [writeFields]
    exact (endsNumber_cons rfl rest).blanks_append closing
  | cons field fields =>
    rw [writeFields]
    exact endsNumber_cons rfl _

section Layouts

variable {layout : Layout} (blank : layout.Blank)

include blank

mutual

/-- A written value is read to its end if there is fuel for its length. -/
theorem readValue_write : (value : Json) → (depth fuel : Nat) → (rest : List Char) →
    (value.write layout depth).length ≤ fuel → EndsNumber rest →
    readValue fuel (value.write layout depth ++ rest) = (value.toDraft, some rest)
  | value, depth, 0, rest, enough, _ => by
    obtain ⟨c, cs, written, _, _⟩ := exists_write_cons layout depth value
    rw [written] at enough
    contradiction
  | .null, depth, fuel + 1, rest, _, _ => by
    rw [write]
    exact readValue_null fuel rest
  | .bool true, depth, fuel + 1, rest, _, _ => by
    rw [write]
    exact readValue_bool fuel true rest
  | .bool false, depth, fuel + 1, rest, _, _ => by
    rw [write]
    exact readValue_bool fuel false rest
  | .number n, depth, fuel + 1, rest, _, ends => by
    rw [write]
    exact readValue_number fuel n ends
  | .string s, depth, fuel + 1, rest, _, _ => by
    rw [write]
    exact readValue_string fuel s rest
  | .array [], depth, fuel + 1, rest, _, _ => by
    rw [write]
    rfl
  | .array (item :: items), depth, fuel + 1, rest, enough, _ => by
    have text : (Json.array (item :: items)).write layout depth ++ rest =
        '[' :: (layout.breakAt (depth + 1) ++ (item.write layout (depth + 1) ++
          (writeItems layout (depth + 1) items ++ (layout.breakAt depth ++ ']' :: rest)))) := by
      simp [write]
    simp only [write, List.cons_append, List.length_cons, List.length_append] at enough
    obtain ⟨c, cs, written, solid, filled⟩ := exists_write_cons layout (depth + 1) item
    obtain ⟨fuel, rfl⟩ : ∃ less, fuel = less + 1 := ⟨fuel - 1, by simp at enough; omega⟩
    have first := readValue_write item (depth + 1) fuel _ (by omega)
      (endsNumber_writeItems layout (depth + 1) items (blank.breakAt depth) rest)
    have items := readItems_writeItems items (depth + 1) fuel _ (layout.breakAt depth) rest
      item.toDraft (blank.breakAt depth) (by omega) first
    rw [written, List.cons_append] at items
    rw [text, written, List.cons_append,
      readValue_bracket (fuel + 1) (blank.breakAt (depth + 1)) solid filled, items]
    rfl
  | .object [], depth, fuel + 1, rest, _, _ => by
    rw [write]
    rfl
  | .object ((key, value) :: fields), depth, fuel + 1, rest, enough, _ => by
    have text : (Json.object ((key, value) :: fields)).write layout depth ++ rest =
        '\x7b' :: (layout.breakAt (depth + 1) ++ (quote key ++ ':' :: (layout.afterColon ++
          (value.write layout (depth + 1) ++ (writeFields layout (depth + 1) fields ++
            (layout.breakAt depth ++ '\x7d' :: rest)))))) := by
      simp [write]
    simp only [write, List.cons_append, List.length_cons, List.length_append] at enough
    obtain ⟨fuel, rfl⟩ : ∃ less, fuel = less + 1 := ⟨fuel - 1, by simp at enough; omega⟩
    have first := readValue_write value (depth + 1) fuel _ (by omega)
      (endsNumber_writeFields layout (depth + 1) fields (blank.breakAt depth) rest)
    have fields := readFields_writeFields fields (depth + 1) fuel [] _ (layout.breakAt depth) rest
      key value.toDraft (fun _ member => by cases member) (blank.breakAt depth) (by omega)
      ((readValue_blanks fuel blank.afterColon _).trans first)
    rw [List.nil_append] at fields
    rw [text, readValue_brace (fuel + 1) (blank.breakAt (depth + 1)), fields]
    rfl

/-- The further items of an array are read behind an item. -/
theorem readItems_writeItems : (items : List Json) → (depth fuel : Nat) →
    (cs close rest : List Char) → (draft : Draft) → (∀ c ∈ close, isJsonBlank c = true) →
    (writeItems layout depth items).length ≤ fuel →
    readValue fuel cs = (draft, some (writeItems layout depth items ++ (close ++ ']' :: rest))) →
    readItems (fuel + 1) cs = (draft :: toDrafts items, some rest)
  | [], depth, fuel, cs, close, rest, draft, closing, _, read => by
    rw [readItems, read]
    dsimp only
    rw [writeItems, List.nil_append, skipBlanks_append closing, skipBlanks_cons rfl]
    rfl
  | item :: items, depth, fuel, cs, close, rest, draft, closing, enough, read => by
    have text : writeItems layout depth (item :: items) ++ (close ++ ']' :: rest) =
        ',' :: (layout.breakAt depth ++ (item.write layout depth ++
          (writeItems layout depth items ++ (close ++ ']' :: rest)))) := by
      simp [writeItems]
    simp only [writeItems, List.cons_append, List.length_cons, List.length_append] at enough
    obtain ⟨fuel, rfl⟩ : ∃ less, fuel = less + 1 := ⟨fuel - 1, by omega⟩
    have first := readValue_write item depth fuel _ (by omega)
      (endsNumber_writeItems layout depth items closing rest)
    have more := readItems_writeItems items depth fuel _ close rest item.toDraft closing (by omega)
      ((readValue_blanks fuel (blank.breakAt depth) _).trans first)
    rw [readItems, read, text]
    dsimp only
    rw [skipBlanks_cons rfl]
    change (draft :: (readItems (fuel + 1) _).1, (readItems (fuel + 1) _).2) = _
    rw [more]
    rfl

/-- The further fields of an object are read behind a field. -/
theorem readFields_writeFields : (fields : List (String × Json)) → (depth fuel : Nat) →
    (blanks cs close rest : List Char) → (key : String) → (draft : Draft) →
    (∀ c ∈ blanks, isJsonBlank c = true) → (∀ c ∈ close, isJsonBlank c = true) →
    (writeFields layout depth fields).length ≤ fuel →
    readValue fuel cs =
      (draft, some (writeFields layout depth fields ++ (close ++ '\x7d' :: rest))) →
    readFields (fuel + 1) (blanks ++ (quote key ++ ':' :: cs)) =
      ((some key, draft) :: toDraftFields fields, some rest)
  | [], depth, fuel, blanks, cs, close, rest, key, draft, leading, closing, _, read => by
    rw [readFields_key fuel leading, read]
    dsimp only
    rw [writeFields, List.nil_append, skipBlanks_append closing, skipBlanks_cons rfl]
    rfl
  | (key', value) :: fields, depth, fuel, blanks, cs, close, rest, key, draft, leading, closing,
      enough, read => by
    have text : writeFields layout depth ((key', value) :: fields) ++ (close ++ '\x7d' :: rest) =
        ',' :: (layout.breakAt depth ++ (quote key' ++ ':' :: (layout.afterColon ++
          (value.write layout depth ++ (writeFields layout depth fields ++
            (close ++ '\x7d' :: rest)))))) := by
      simp [writeFields]
    simp only [writeFields, List.cons_append, List.length_cons, List.length_append] at enough
    obtain ⟨fuel, rfl⟩ : ∃ less, fuel = less + 1 := ⟨fuel - 1, by omega⟩
    have first := readValue_write value depth fuel _ (by omega)
      (endsNumber_writeFields layout depth fields closing rest)
    have more := readFields_writeFields fields depth fuel (layout.breakAt depth) _ close rest key'
      value.toDraft (blank.breakAt depth) closing (by omega)
      ((readValue_blanks fuel blank.afterColon _).trans first)
    rw [readFields_key (fuel + 1) leading, read, text]
    dsimp only
    rw [skipBlanks_cons rfl]
    change ((some key, draft) :: (readFields (fuel + 1) _).1, (readFields (fuel + 1) _).2) = _
    rw [more]
    rfl

end

/-- The draft of a written value is that value, also with blanks behind it. -/
theorem draft_write (value : Json) {blanks : List Char}
    (trailing : ∀ c ∈ blanks, isJsonBlank c = true) :
    draft (String.ofList (value.write layout 0 ++ blanks)) = (value.toDraft, true) := by
  have ends : EndsNumber (blanks ++ []) :=
    EndsNumber.blanks_append (fun _ first => by cases first) trailing
  rw [List.append_nil] at ends
  rw [draft, String.toList_ofList]
  dsimp only
  rw [readValue_write blank value 0 _ blanks (by rw [List.length_append]; omega) ends]
  have nothing : skipBlanks blanks = [] := by
    rw [← List.append_nil blanks, skipBlanks_append trailing]
    rfl
  simp [nothing]

/-- Every value is read back from its text. -/
theorem parse?_write (value : Json) {blanks : List Char}
    (trailing : ∀ c ∈ blanks, isJsonBlank c = true) :
    parse? (String.ofList (value.write layout 0 ++ blanks)) = some value := by
  rw [parse?, draft_write blank value trailing]
  exact complete?_toDraft value

end Layouts

/-- Items that are each read back are read back together. -/
theorem mapM_map_eq_pure {m : Type → Type} [Monad m] [LawfulMonad m] {α β : Type} {write : α → β}
    {read : β → m α} {xs : List α} (back : ∀ x ∈ xs, read (write x) = pure x) :
    (xs.map write).mapM read = pure xs := by
  induction xs with
  | nil => rfl
  | cons x xs ih =>
    have here := back x (List.mem_cons_self ..)
    have rest := ih fun y member => back y (List.mem_cons_of_mem _ member)
    simp [here, rest]

end Json
end LayerGuard
