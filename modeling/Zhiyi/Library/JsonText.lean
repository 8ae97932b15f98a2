import Zhiyi.Library.Json

set_option autoImplicit false

/-! JSON text under `ensure_ascii=False`, and the `json.loads` that reads it back.
The reader takes its conversion of integer tokens as an argument, and reading is
the inverse of writing for every conversion that reads canonical integers. -/
namespace Python
namespace Json
open Digits (hexDigit)

theorem canonical_obj {fields : List (String × Json)}
    (hkeys : (fields.map Prod.fst).Pairwise (· < ·)) (hvalues : ∀ p ∈ fields, p.2.Canonical) :
    (Json.obj fields).Canonical :=
  ⟨List.pairwise_map.mp hkeys, canonicalValues_iff.mpr hvalues⟩

theorem canonical_arr {items : List Json} (h : ∀ j ∈ items, j.Canonical) :
    (Json.arr items).Canonical := by
  induction items with
  | nil => trivial
  | cons j items ih =>
    exact ⟨h j List.mem_cons_self, ih fun j hj => h j (List.mem_cons_of_mem _ hj)⟩

/-- One character under `ensure_ascii=False`: only quotes, backslashes and
    control characters are escaped. -/
def escapeText (c : Char) : List Char :=
  if c = '"' then ['\\', '"']
  else if c = '\\' then ['\\', '\\']
  else if c = '\n' then ['\\', 'n']
  else if c = '\r' then ['\\', 'r']
  else if c = '\t' then ['\\', 't']
  else if c = '\x08' then ['\\', 'b']
  else if c = '\x0c' then ['\\', 'f']
  else if c.toNat < 32 then escapeUnit c.toNat
  else [c]

def textChars : List Char → List Char
  | [] => ['"']
  | c :: cs => escapeText c ++ textChars cs

def textStr (s : String) : List Char := '"' :: textChars s.toList

mutual
/-- The text of a document whose integers are written by `writeInt`. -/
def text (writeInt : ℤ → List Char) : Json → List Char
  | .null => ['n', 'u', 'l', 'l']
  | .bool true => ['t', 'r', 'u', 'e']
  | .bool false => ['f', 'a', 'l', 's', 'e']
  | .int n => writeInt n
  | .str s => textStr s
  | .arr [] => ['[', ']']
  | .arr (j :: items) => '[' :: (text writeInt j ++ textItems writeInt items)
  | .obj [] => ['\x7b', '\x7d']
  | .obj ((key, j) :: fields) =>
    '\x7b' :: (textStr key ++ ':' :: (text writeInt j ++ textFields writeInt fields))
def textItems (writeInt : ℤ → List Char) : List Json → List Char
  | [] => [']']
  | j :: items => ',' :: (text writeInt j ++ textItems writeInt items)
def textFields (writeInt : ℤ → List Char) : List (String × Json) → List Char
  | [] => ['\x7d']
  | (key, j) :: fields =>
    ',' :: (textStr key ++ ':' :: (text writeInt j ++ textFields writeInt fields))
end

def isSpace (c : Char) : Bool := c == ' ' || c == '\t' || c == '\n' || c == '\r'

def skipSpace (cs : List Char) : List Char := cs.dropWhile isSpace

def isHex (c : Char) : Bool :=
  ('0' ≤ c && c ≤ '9') || ('a' ≤ c && c ≤ 'f') || ('A' ≤ c && c ≤ 'F')

def hexValue (c : Char) : ℕ :=
  if '0' ≤ c && c ≤ '9' then c.toNat - 48
  else if 'a' ≤ c && c ≤ 'f' then c.toNat - 87
  else c.toNat - 55

def readHex4 : List Char → Option (ℕ × List Char)
  | a :: b :: c :: d :: rest =>
    if isHex a && isHex b && isHex c && isHex d then
      some (hexValue a * 4096 + hexValue b * 256 + hexValue c * 16 + hexValue d, rest)
    else none
  | _ => none

/-- The character of a `\\u` escape. A high surrogate needs its partner: a text
    is made of scalar values. -/
def readUnit (cs : List Char) : Option (Char × List Char) := do
  let (n, rest) ← readHex4 cs
  if n < 55296 ∨ 57343 < n then return (Char.ofNat n, rest)
  else
    match rest with
    | '\\' :: 'u' :: rest => do
      let (l, rest) ← readHex4 rest
      if n < 56320 ∧ 56320 ≤ l ∧ l ≤ 57343 then
        return (Char.ofNat (65536 + (n - 55296) * 1024 + (l - 56320)), rest)
      else none
    | _ => none

def readChar : List Char → Option (Char × List Char)
  | '\\' :: '"' :: rest => some ('"', rest)
  | '\\' :: '\\' :: rest => some ('\\', rest)
  | '\\' :: '/' :: rest => some ('/', rest)
  | '\\' :: 'n' :: rest => some ('\n', rest)
  | '\\' :: 'r' :: rest => some ('\r', rest)
  | '\\' :: 't' :: rest => some ('\t', rest)
  | '\\' :: 'b' :: rest => some ('\x08', rest)
  | '\\' :: 'f' :: rest => some ('\x0c', rest)
  | '\\' :: 'u' :: rest => readUnit rest
  | '\\' :: _ => none
  | c :: rest => if c.toNat < 32 then none else some (c, rest)
  | [] => none

/-- The characters up to the closing quote. The fuel bounds their number. -/
def readChars : ℕ → List Char → Option (List Char × List Char)
  | 0, _ => none
  | _ + 1, '"' :: rest => some ([], rest)
  | fuel + 1, cs => do
    let (c, rest) ← readChar cs
    let (s, rest) ← readChars fuel rest
    return (c :: s, rest)

def readStr : List Char → Option (String × List Char)
  | '"' :: rest => do
    let (s, rest) ← readChars rest.length rest
    return (String.ofList s, rest)
  | _ => none

def integerToken : List Char → List Char × List Char
  | '-' :: cs => ('-' :: cs.takeWhile Char.isDigit, cs.dropWhile Char.isDigit)
  | cs => (cs.takeWhile Char.isDigit, cs.dropWhile Char.isDigit)

def expect (c : Char) (cs : List Char) : Option (List Char) :=
  match skipSpace cs with
  | d :: rest => if d = c then some rest else none
  | [] => none

section
variable (parseInt : List Char → Option ℤ)

mutual
/-- One document at the front of the text. The fuel bounds its length. -/
def readValue : ℕ → List Char → Option (Json × List Char)
  | 0, _ => none
  | fuel + 1, cs =>
    match skipSpace cs with
    | 'n' :: 'u' :: 'l' :: 'l' :: rest => some (.null, rest)
    | 't' :: 'r' :: 'u' :: 'e' :: rest => some (.bool true, rest)
    | 'f' :: 'a' :: 'l' :: 's' :: 'e' :: rest => some (.bool false, rest)
    | '"' :: rest => (readStr ('"' :: rest)).map fun p => (.str p.1, p.2)
    | '[' :: rest =>
      match skipSpace rest with
      | ']' :: rest => some (.arr [], rest)
      | rest => (readItems fuel rest).map fun p => (.arr p.1, p.2)
    | '\x7b' :: rest =>
      match skipSpace rest with
      | '\x7d' :: rest => some (.obj [], rest)
      | rest => do
        let (fields, rest) ← readFields fuel rest
        if (fields.map Prod.fst).Nodup then return (.obj (sortFields fields), rest) else none
    | cs =>
      (parseInt (integerToken cs).1).map fun n => (.int n, (integerToken cs).2)
def readItems : ℕ → List Char → Option (List Json × List Char)
  | 0, _ => none
  | fuel + 1, cs => do
    let (j, rest) ← readValue fuel cs
    match skipSpace rest with
    | ']' :: rest => return ([j], rest)
    | ',' :: rest => do
      let (items, rest) ← readItems fuel rest
      return (j :: items, rest)
    | _ => none
def readFields : ℕ → List Char → Option (List (String × Json) × List Char)
  | 0, _ => none
  | fuel + 1, cs => do
    let (key, rest) ← readStr (skipSpace cs)
    let rest ← expect ':' rest
    let (j, rest) ← readValue fuel rest
    match skipSpace rest with
    | '\x7d' :: rest => return ([(key, j)], rest)
    | ',' :: rest => do
      let (fields, rest) ← readFields fuel rest
      return ((key, j) :: fields, rest)
    | _ => none
end

/-- `json.loads(s, parse_int=..., object_pairs_hook=_unique_object)`: one document
    and white space. Numbers with a fraction or an exponent are left unread and
    rejected with the rest of the text. -/
def loads (s : String) : Option Json := do
  let (j, rest) ← readValue parseInt s.length s.toList
  if skipSpace rest = [] then return j else none

end

theorem readHex4_hex4 (n : ℕ) (h : n < 65536) (t : List Char) :
    readHex4 (hex4 n ++ t) = some (n, t) := by
  have hdigit : ∀ d < 16, isHex (hexDigit d) = true ∧ hexValue (hexDigit d) = d := by decide
  have h1 := hdigit (n / 4096 % 16) (Nat.mod_lt _ (by norm_num))
  have h2 := hdigit (n / 256 % 16) (Nat.mod_lt _ (by norm_num))
  have h3 := hdigit (n / 16 % 16) (Nat.mod_lt _ (by norm_num))
  have h4 := hdigit (n % 16) (Nat.mod_lt _ (by norm_num))
  simp only [hex4, List.cons_append, List.nil_append, readHex4, h1.1, h2.1, h3.1, h4.1, h1.2, h2.2,
    h3.2, h4.2, Bool.and_self, if_true, Option.some.injEq, Prod.mk.injEq, and_true]
  omega

theorem readChar_plain {c : Char} (hb : c ≠ '\\') (hc : 32 ≤ c.toNat) (t : List Char) :
    readChar (c :: t) = some (c, t) := by
  unfold readChar
  split <;> simp_all

theorem readChar_escapeText (c : Char) (t : List Char) :
    readChar (escapeText c ++ t) = some (c, t) := by
  unfold escapeText
  split_ifs with h1 h2 h3 h4 h5 h6 h7 h8
  · subst h1; rfl
  · subst h2; rfl
  · subst h3; rfl
  · subst h4; rfl
  · subst h5; rfl
  · subst h6; rfl
  · subst h7; rfl
  · have hn : c.toNat < 55296 ∨ 57343 < c.toNat := by omega
    simp only [escapeUnit, List.cons_append, readChar, readUnit, readHex4_hex4 c.toNat (by omega) t,
      Option.bind_eq_bind, Option.bind_some, if_pos hn, Char.ofNat_toNat]
    rfl
  · exact readChar_plain h2 (by omega) t

theorem escapeText_ne_quote (c : Char) (t u : List Char) : escapeText c ++ t ≠ '"' :: u := by
  unfold escapeText
  split_ifs with h1 <;> simp [escapeUnit, *]

theorem escapeText_length (c : Char) : 1 ≤ (escapeText c).length := by
  unfold escapeText
  split_ifs <;> simp [escapeUnit]

theorem readChars_textChars (cs t : List Char) (fuel : ℕ) (h : (textChars cs).length ≤ fuel) :
    readChars fuel (textChars cs ++ t) = some (cs, t) := by
  induction cs generalizing fuel with
  | nil =>
    obtain ⟨fuel, rfl⟩ : ∃ k, fuel = k + 1 := ⟨fuel - 1, by simp [textChars] at h; omega⟩
    rfl
  | cons c cs ih =>
    have hlength := escapeText_length c
    rw [textChars, List.length_append] at h
    obtain ⟨fuel, rfl⟩ : ∃ k, fuel = k + 1 := ⟨fuel - 1, by omega⟩
    rw [textChars, List.append_assoc, readChars]
    · simp only [readChar_escapeText, Option.bind_eq_bind, Option.bind_some, ih fuel (by omega)]
      rfl
    · exact escapeText_ne_quote c _

theorem readStr_textStr (s : String) (t : List Char) : readStr (textStr s ++ t) = some (s, t) := by
  have h : (textChars s.toList).length ≤ (textChars s.toList ++ t).length := by simp
  simp only [textStr, List.cons_append, readStr, readChars_textChars s.toList t _ h,
    Option.bind_eq_bind, Option.bind_some, String.ofList_toList]
  rfl

theorem takeWhile_digits_append {ds t : List Char} (hd : ∀ c ∈ ds, c.isDigit) (ht : Stops t) :
    (ds ++ t).takeWhile Char.isDigit = ds ∧ (ds ++ t).dropWhile Char.isDigit = t := by
  induction ds with
  | nil =>
    cases t with
    | nil => exact ⟨rfl, rfl⟩
    | cons c t =>
      have hc := ht c rfl
      simp [hc]
  | cons c ds ih =>
    have hc := hd c List.mem_cons_self
    obtain ⟨h1, h2⟩ := ih fun c hc => hd c (List.mem_cons_of_mem _ hc)
    simp [hc, h1, h2]

theorem integerToken_printInt (n : ℤ) {t : List Char} (ht : Stops t) :
    integerToken (printInt n ++ t) = (printInt n, t) := by
  obtain ⟨h1, h2⟩ := takeWhile_digits_append (Digits.allDigits_toDigits n.natAbs) ht
  unfold printInt
  split_ifs with hn
  · simp only [List.cons_append, integerToken, h1, h2]
  · rw [integerToken]
    · rw [h1, h2]
    · exact fun cs h => toDigits_ne_minus _ _ _ h

theorem skipSpace_cons {c : Char} (h : isSpace c = false) (t : List Char) :
    skipSpace (c :: t) = c :: t := by
  simp [skipSpace, h]

theorem digit_facts {c : Char} (h : c = '-' ∨ c.isDigit = true) :
    isSpace c = false ∧ c ≠ ']' ∧ c ≠ 'n' ∧ c ≠ 't' ∧ c ≠ 'f' ∧ c ≠ '"' ∧ c ≠ '[' ∧ c ≠ '\x7b' := by
  have hspace : isSpace c = false := by
    simp only [isSpace, Bool.or_eq_false_iff, beq_eq_false_iff_ne]
    refine ⟨⟨⟨?_, ?_⟩, ?_⟩, ?_⟩ <;> rintro rfl <;> revert h <;> decide
  refine ⟨hspace, ?_, ?_, ?_, ?_, ?_, ?_, ?_⟩ <;> rintro rfl <;> revert h <;> decide

theorem printInt_head (n : ℤ) :
    ∃ c r, printInt n = c :: r ∧ (c = '-' ∨ c.isDigit = true) := by
  unfold printInt
  split_ifs
  · exact ⟨'-', _, rfl, .inl rfl⟩
  · obtain ⟨c, r, hc, hd⟩ := toDigits_head n.natAbs
    exact ⟨c, r, hc, .inr hd⟩

theorem text_head (j : Json) :
    ∃ c r, text printInt j = c :: r ∧ isSpace c = false ∧ c ≠ ']' := by
  match j with
  | .null => exact ⟨'n', _, rfl, by decide, by decide⟩
  | .bool true => exact ⟨'t', _, rfl, by decide, by decide⟩
  | .bool false => exact ⟨'f', _, rfl, by decide, by decide⟩
  | .str _ => exact ⟨'"', _, rfl, by decide, by decide⟩
  | .arr [] => exact ⟨'[', _, rfl, by decide, by decide⟩
  | .arr (_ :: _) => exact ⟨'[', _, rfl, by decide, by decide⟩
  | .obj [] => exact ⟨'\x7b', _, rfl, by decide, by decide⟩
  | .obj ((_, _) :: _) => exact ⟨'\x7b', _, rfl, by decide, by decide⟩
  | .int n =>
    obtain ⟨c, r, hc, hd⟩ := printInt_head n
    obtain ⟨h1, h2, -⟩ := digit_facts hd
    exact ⟨c, r, by rw [text, hc], h1, h2⟩

theorem stops_textItems (items : List Json) (t : List Char) :
    Stops (textItems printInt items ++ t) := by
  cases items <;> exact stops_cons (by decide)

theorem stops_textFields (fields : List (String × Json)) (t : List Char) :
    Stops (textFields printInt fields ++ t) := by
  cases fields with
  | nil => exact stops_cons (by decide)
  | cons p fields => exact stops_cons (by decide)

section
variable {parseInt : List Char → Option ℤ}

theorem readValue_number {c : Char} (h : c = '-' ∨ c.isDigit = true) (fuel : ℕ) (cs : List Char) :
    readValue parseInt (fuel + 1) (c :: cs) =
      (parseInt (integerToken (c :: cs)).1).map fun n => (.int n, (integerToken (c :: cs)).2) := by
  obtain ⟨hspace, -, h1, h2, h3, h4, h5, h6⟩ := digit_facts h
  rw [readValue, skipSpace_cons hspace]
  split <;> simp_all

theorem ascending_nodup {fields : List (String × Json)} (h : Entries.Ascending fields) :
    (fields.map Prod.fst).Nodup := by
  refine List.Pairwise.map Prod.fst (fun a b hab => ?_) h
  exact ne_of_lt hab

mutual
/-- Reading inverts writing, with any text after it that does not continue a
    number. The fuel pays one unit for each character. -/
theorem readValue_text (hparse : ∀ n, parseInt (printInt n) = some n) (j : Json)
    (hj : j.Canonical) (fuel : ℕ) (t : List Char) (ht : Stops t)
    (hfuel : (text printInt j).length ≤ fuel) :
    readValue parseInt fuel (text printInt j ++ t) = some (j, t) := by
  obtain ⟨c, r, hhead, -, -⟩ := text_head j
  cases fuel with
  | zero => simp [hhead] at hfuel
  | succ fuel =>
    cases j with
    | null => rfl
    | bool b => cases b <;> rfl
    | int n =>
      obtain ⟨c, r, hc, hd⟩ := printInt_head n
      have htoken := integerToken_printInt n ht
      rw [text]
      rw [hc, List.cons_append] at htoken ⊢
      rw [readValue_number hd, htoken, ← hc, hparse]
      rfl
    | str s =>
      have hstr := readStr_textStr s t
      simp only [text, textStr, List.cons_append, readValue,
        skipSpace_cons (show isSpace '"' = false by decide)] at hstr ⊢
      rw [hstr]
      rfl
    | arr items =>
      cases items with
      | nil => rfl
      | cons k items =>
        obtain ⟨c, r, hc, hspace, hbracket⟩ := text_head k
        have hitems := readItems_text hparse k items hj.1 hj.2 fuel t (by simp [text] at hfuel ⊢; omega)
        simp only [text, List.cons_append, List.append_assoc, readValue,
          skipSpace_cons (show isSpace '[' = false by decide)]
        rw [hc, List.cons_append] at hitems ⊢
        rw [skipSpace_cons hspace]
        split
        · next h => exact absurd (List.cons.inj h).1 hbracket
        · rw [hitems]
          rfl
    | obj fields =>
      cases fields with
      | nil => rfl
      | cons p fields =>
        obtain ⟨key, k⟩ := p
        have hfields := readFields_text hparse key k fields hj.2.1 hj.2.2 fuel t
          (by simp [text] at hfuel ⊢; omega)
        have hnodup := ascending_nodup hj.1
        simp only [text, List.cons_append, List.append_assoc, readValue,
          skipSpace_cons (show isSpace '\x7b' = false by decide)]
        rw [textStr, List.cons_append] at hfields ⊢
        rw [skipSpace_cons (by decide)]
        split
        · next h => exact absurd (List.cons.inj h).1 (by decide)
        · simp only [hfields, Option.bind_eq_bind, Option.bind_some, if_pos hnodup,
            sortFields_of_ascending hj.1]
          rfl
termination_by fuel

theorem readItems_text (hparse : ∀ n, parseInt (printInt n) = some n) (k : Json)
    (items : List Json) (hk : k.Canonical) (hitems : CanonicalItems items) (fuel : ℕ) (t : List Char)
    (hfuel : (text printInt k ++ textItems printInt items).length ≤ fuel) :
    readItems parseInt fuel (text printInt k ++ (textItems printInt items ++ t)) =
      some (k :: items, t) := by
  obtain ⟨c, r, hhead, -, -⟩ := text_head k
  rw [List.length_append] at hfuel
  cases fuel with
  | zero => simp [hhead] at hfuel
  | succ fuel =>
    cases items with
    | nil =>
      have hk := readValue_text hparse k hk fuel (']' :: t) (stops_cons (by decide))
        (by simp [textItems] at hfuel; omega)
      simp only [textItems, List.cons_append, List.nil_append, readItems, hk, Option.bind_eq_bind,
        Option.bind_some, skipSpace_cons (show isSpace ']' = false by decide)]
      rfl
    | cons k' items =>
      have hlength : (text printInt k').length + (textItems printInt items).length + 1 +
          (text printInt k).length ≤ fuel + 1 := by simp [textItems] at hfuel; omega
      have hk := readValue_text hparse k hk fuel (textItems printInt (k' :: items) ++ t)
        (stops_textItems _ t) (by omega)
      have hrest := readItems_text hparse k' items hitems.1 hitems.2 fuel t (by simp; omega)
      rw [readItems, hk]
      simp only [textItems, List.cons_append, List.append_assoc, Option.bind_eq_bind, Option.bind_some,
        skipSpace_cons (show isSpace ',' = false by decide), hrest]
      rfl
termination_by fuel

theorem readFields_text (hparse : ∀ n, parseInt (printInt n) = some n) (key : String)
    (k : Json) (fields : List (String × Json)) (hk : k.Canonical) (hfields : CanonicalValues fields)
    (fuel : ℕ) (t : List Char)
    (hfuel : (textStr key ++ ':' :: (text printInt k ++ textFields printInt fields)).length ≤ fuel) :
    readFields parseInt fuel
        (textStr key ++ ':' :: (text printInt k ++ (textFields printInt fields ++ t))) =
      some ((key, k) :: fields, t) := by
  rw [List.length_append, List.length_cons, List.length_append] at hfuel
  cases fuel with
  | zero => omega
  | succ fuel =>
    have hspace : skipSpace (textStr key ++ ':' :: (text printInt k ++ (textFields printInt fields ++ t))) =
        textStr key ++ ':' :: (text printInt k ++ (textFields printInt fields ++ t)) :=
      skipSpace_cons (by decide) _
    have hcolon : ∀ u, expect ':' (':' :: u) = some u := by
      intro u
      simp [expect, skipSpace_cons (show isSpace ':' = false by decide)]
    cases fields with
    | nil =>
      have hk := readValue_text hparse k hk fuel ('\x7d' :: t) (stops_cons (by decide)) (by omega)
      rw [readFields, hspace, readStr_textStr]
      simp only [textFields, List.cons_append, List.nil_append, hcolon, hk, Option.bind_eq_bind,
        Option.bind_some, skipSpace_cons (show isSpace '\x7d' = false by decide)]
      rfl
    | cons p fields =>
      obtain ⟨key', k'⟩ := p
      have hlength : (textStr key').length + ((text printInt k').length +
          (textFields printInt fields).length + 1) + 1 + (text printInt k).length ≤ fuel := by
        simp [textFields] at hfuel
        omega
      have hk := readValue_text hparse k hk fuel (textFields printInt ((key', k') :: fields) ++ t)
        (stops_textFields _ t) (by omega)
      have hrest := readFields_text hparse key' k' fields hfields.1 hfields.2 fuel t (by simp; omega)
      rw [readFields, hspace, readStr_textStr]
      simp only [hcolon, hk, Option.bind_eq_bind, Option.bind_some]
      simp only [textFields, List.cons_append, List.append_assoc, Option.bind_some,
        skipSpace_cons (show isSpace ',' = false by decide), hrest]
      rfl
termination_by fuel
end

/-- `json.loads` reads every canonical document back from its text. -/
theorem loads_text (hparse : ∀ n, parseInt (printInt n) = some n) (j : Json)
    (hj : j.Canonical) :
    loads parseInt (String.ofList (text printInt j)) = some j := by
  have h := readValue_text hparse j hj (text printInt j).length [] (by simp [Stops]) le_rfl
  rw [List.append_nil] at h
  simp only [loads, String.length_ofList, String.toList_ofList, h, Option.bind_eq_bind,
    Option.bind_some]
  rfl

end
end Json
end Python
