import Zhiyi.Library.Dict
import Zhiyi.Library.Digits
import Zhiyi.Library.Python

set_option autoImplicit false

/-! JSON documents and the compact ASCII text of `json.dumps`. Printing is
injective on documents with sorted keys, even when more text follows. -/
namespace Python

inductive Json where
  | null
  | bool (b : Bool)
  | int (n : ℤ)
  | str (s : String)
  | arr (items : List Json)
  | obj (fields : List (String × Json))
  deriving Repr

namespace Json
open Digits (hexDigit)

/-- Every object lists its keys in ascending order. A Python mapping is
    unordered, so this is its one representation. -/
def sortFields (fields : List (String × Json)) : List (String × Json) :=
  fields.insertionSort (fun p q => p.1 ≤ q.1)

mutual
def sortKeys : Json → Json
  | .arr items => .arr (sortItems items)
  | .obj fields => .obj (sortFields (sortValues fields))
  | j => j
def sortItems : List Json → List Json
  | [] => []
  | j :: items => sortKeys j :: sortItems items
def sortValues : List (String × Json) → List (String × Json)
  | [] => []
  | (key, j) :: fields => (key, sortKeys j) :: sortValues fields
end

mutual
def withinStrDigits : Json → Bool
  | .int n => decide (WithinStrDigits n.natAbs)
  | .arr items => itemsWithin items
  | .obj fields => fieldsWithin fields
  | _ => true
def itemsWithin : List Json → Bool
  | [] => true
  | j :: items => withinStrDigits j && itemsWithin items
def fieldsWithin : List (String × Json) → Bool
  | [] => true
  | (_, j) :: fields => withinStrDigits j && fieldsWithin fields
end

def hex4 (n : ℕ) : List Char :=
  [hexDigit (n / 4096 % 16), hexDigit (n / 256 % 16), hexDigit (n / 16 % 16), hexDigit (n % 16)]

def escapeUnit (n : ℕ) : List Char := '\\' :: 'u' :: hex4 n

/-- One character under `ensure_ascii=True`: characters outside the basic plane
    become a surrogate pair. -/
def escapeChar (c : Char) : List Char :=
  if c = '"' then ['\\', '"']
  else if c = '\\' then ['\\', '\\']
  else if c = '\n' then ['\\', 'n']
  else if c = '\r' then ['\\', 'r']
  else if c = '\t' then ['\\', 't']
  else if c = '\x08' then ['\\', 'b']
  else if c = '\x0c' then ['\\', 'f']
  else if 32 ≤ c.toNat ∧ c.toNat ≤ 126 then [c]
  else if c.toNat < 65536 then escapeUnit c.toNat
  else escapeUnit (55296 + (c.toNat - 65536) / 1024) ++ escapeUnit (56320 + (c.toNat - 65536) % 1024)

def printChars : List Char → List Char
  | [] => ['"']
  | c :: cs => escapeChar c ++ printChars cs

def printStr (s : String) : List Char := '"' :: printChars s.toList

def printInt (n : ℤ) : List Char :=
  if n < 0 then '-' :: Nat.toDigits 10 n.natAbs else Nat.toDigits 10 n.natAbs

mutual
def print : Json → List Char
  | .null => "null".toList
  | .bool true => "true".toList
  | .bool false => "false".toList
  | .int n => printInt n
  | .str s => printStr s
  | .arr items => '[' :: printArray items
  | .obj fields => '\x7b' :: printObject fields
def printArray : List Json → List Char
  | [] => [']']
  | j :: items => print j ++ printItems items
def printItems : List Json → List Char
  | [] => [']']
  | j :: items => ',' :: (print j ++ printItems items)
def printObject : List (String × Json) → List Char
  | [] => ['\x7d']
  | (key, j) :: fields => printStr key ++ ':' :: (print j ++ printFields fields)
def printFields : List (String × Json) → List Char
  | [] => ['\x7d']
  | (key, j) :: fields => ',' :: (printStr key ++ ':' :: (print j ++ printFields fields))
end

/-- `json.dumps(j, ensure_ascii=True, sort_keys=True, separators=(",", ":"))`. -/
def dumps (j : Json) : Except PyError String :=
  if j.withinStrDigits then .ok (String.ofList (print (sortKeys j))) else .error digitLimit

def unhex (c : Char) : ℕ := "0123456789abcdef".toList.idxOf c

theorem unhex_hexDigit (n : ℕ) (h : n < 16) : unhex (hexDigit n) = n := by
  revert n
  decide

def unhex4 (a b c d : Char) : ℕ := unhex a * 4096 + unhex b * 256 + unhex c * 16 + unhex d

theorem unhex4_hex4 (n : ℕ) (h : n < 65536) :
    unhex4 (hexDigit (n / 4096 % 16)) (hexDigit (n / 256 % 16)) (hexDigit (n / 16 % 16))
      (hexDigit (n % 16)) = n := by
  simp only [unhex4, unhex_hexDigit _ (Nat.mod_lt _ (by norm_num : 16 > 0))]
  omega

def unescape : List Char → Option (Char × List Char)
  | '\\' :: 'u' :: a :: b :: c :: d :: rest =>
    let n := unhex4 a b c d
    if 55296 ≤ n ∧ n < 56320 then
      match rest with
      | _ :: _ :: a' :: b' :: c' :: d' :: rest =>
        some (Char.ofNat (65536 + (n - 55296) * 1024 + (unhex4 a' b' c' d' - 56320)), rest)
      | _ => none
    else some (Char.ofNat n, rest)
  | '\\' :: 'n' :: rest => some ('\n', rest)
  | '\\' :: 'r' :: rest => some ('\r', rest)
  | '\\' :: 't' :: rest => some ('\t', rest)
  | '\\' :: 'b' :: rest => some ('\x08', rest)
  | '\\' :: 'f' :: rest => some ('\x0c', rest)
  | '\\' :: c :: rest => some (c, rest)
  | c :: rest => some (c, rest)
  | [] => none

theorem char_not_surrogate (c : Char) : c.toNat < 55296 ∨ 57343 < c.toNat := by
  rcases c.valid with h | h
  · exact .inl h
  · exact .inr h.1

theorem char_lt (c : Char) : c.toNat < 1114112 := by
  rcases c.valid with h | h
  · exact Nat.lt_trans h (by norm_num)
  · exact h.2

theorem unescape_unit (n : ℕ) (hn : n < 65536) (hs : ¬ (55296 ≤ n ∧ n < 56320)) (t : List Char) :
    unescape (escapeUnit n ++ t) = some (Char.ofNat n, t) := by
  simp only [escapeUnit, hex4, List.cons_append, List.nil_append, unescape, unhex4_hex4 n hn, hs,
    if_false]

theorem unescape_pair (h l : ℕ) (hh : h < 1024) (hl : l < 1024) (t : List Char) :
    unescape (escapeUnit (55296 + h) ++ escapeUnit (56320 + l) ++ t) =
      some (Char.ofNat (65536 + h * 1024 + l), t) := by
  have hhigh : 55296 ≤ 55296 + h ∧ 55296 + h < 56320 := by omega
  simp only [escapeUnit, hex4, List.cons_append, List.nil_append, unescape,
    unhex4_hex4 (55296 + h) (by omega), unhex4_hex4 (56320 + l) (by omega), hhigh, and_self,
    if_true, Nat.add_sub_cancel_left]

theorem unescape_plain (c : Char) (t : List Char) (h : c ≠ '\\') :
    unescape (c :: t) = some (c, t) := by
  unfold unescape
  split <;> simp_all

theorem unescape_escapeChar (c : Char) (t : List Char) :
    unescape (escapeChar c ++ t) = some (c, t) := by
  unfold escapeChar
  split_ifs with h1 h2 h3 h4 h5 h6 h7 h8 h9
  · subst h1; rfl
  · subst h2; rfl
  · subst h3; rfl
  · subst h4; rfl
  · subst h5; rfl
  · subst h6; rfl
  · subst h7; rfl
  · exact unescape_plain c t h2
  · have hs := char_not_surrogate c
    rw [unescape_unit c.toNat h9 (by omega), Char.ofNat_toNat]
  · have hc := char_lt c
    rw [unescape_pair _ _ (by omega) (by omega)]
    have hv : 65536 + (c.toNat - 65536) / 1024 * 1024 + (c.toNat - 65536) % 1024 = c.toNat := by
      omega
    rw [hv, Char.ofNat_toNat]

theorem escapeChar_inj {c d : Char} {t u : List Char} (h : escapeChar c ++ t = escapeChar d ++ u) :
    c = d ∧ t = u := by
  have hu := congrArg unescape h
  simpa [unescape_escapeChar] using hu

theorem escapeChar_ne_quote (c : Char) (t u : List Char) : escapeChar c ++ t ≠ '"' :: u := by
  intro h
  by_cases hq : c = '"'
  · subst hq
    simp [escapeChar] at h
  · have hu := congrArg unescape h
    rw [unescape_escapeChar, unescape_plain _ _ (by decide)] at hu
    simp only [Option.some.injEq, Prod.mk.injEq] at hu
    exact hq hu.1

theorem printChars_inj {s s' t t' : List Char} (h : printChars s ++ t = printChars s' ++ t') :
    s = s' ∧ t = t' := by
  induction s generalizing s' with
  | nil =>
    cases s' with
    | nil => simpa [printChars] using h
    | cons c s' =>
      simp only [printChars, List.append_assoc] at h
      exact absurd h.symm (escapeChar_ne_quote c _ _)
  | cons c s ih =>
    cases s' with
    | nil =>
      simp only [printChars, List.append_assoc] at h
      exact absurd h (escapeChar_ne_quote c _ _)
    | cons d s' =>
      simp only [printChars, List.append_assoc] at h
      obtain ⟨rfl, hrest⟩ := escapeChar_inj h
      obtain ⟨rfl, ht⟩ := ih hrest
      exact ⟨rfl, ht⟩

theorem printStr_inj {s s' : String} {t t' : List Char} (h : printStr s ++ t = printStr s' ++ t') :
    s = s' ∧ t = t' := by
  simp only [printStr, List.cons_append, List.cons.injEq, true_and] at h
  obtain ⟨hs, ht⟩ := printChars_inj h
  exact ⟨String.toList_injective hs, ht⟩

/-- What may follow a number: no further digit. -/
def Stops (t : List Char) : Prop := ∀ c ∈ t.head?, c.isDigit = false

theorem stops_cons {c : Char} {t : List Char} (h : c.isDigit = false) : Stops (c :: t) := by
  intro d hd
  simp only [List.head?_cons, Option.mem_def, Option.some.injEq] at hd
  exact hd ▸ h

theorem digits_inj {a b t u : List Char} (ha : ∀ c ∈ a, c.isDigit) (hb : ∀ c ∈ b, c.isDigit)
    (ht : Stops t) (hu : Stops u) (h : a ++ t = b ++ u) : a = b ∧ t = u := by
  induction a generalizing b with
  | nil =>
    cases b with
    | nil => exact ⟨rfl, h⟩
    | cons d b =>
      have hd := ht d (by simp [show t = d :: (b ++ u) from h])
      rw [hb d (by simp)] at hd
      cases hd
  | cons c a ih =>
    cases b with
    | nil =>
      have hc := hu c (by simp [show u = c :: (a ++ t) from h.symm])
      rw [ha c (by simp)] at hc
      cases hc
    | cons d b =>
      simp only [List.cons_append, List.cons.injEq] at h
      obtain ⟨rfl, hrest⟩ := h
      obtain ⟨rfl, he⟩ := ih (fun c hc => ha c (by simp [hc])) (fun c hc => hb c (by simp [hc])) hrest
      exact ⟨rfl, he⟩

theorem toDigits_inj {n m : ℕ} {t u : List Char} (ht : Stops t) (hu : Stops u)
    (h : Nat.toDigits 10 n ++ t = Nat.toDigits 10 m ++ u) : n = m ∧ t = u := by
  obtain ⟨hd, he⟩ := digits_inj (Digits.allDigits_toDigits n) (Digits.allDigits_toDigits m) ht hu h
  have hn := congrArg (Nat.ofDigitChars 10 · 0) hd
  simp only [Nat.ofDigitChars_ten_toDigits] at hn
  exact ⟨hn, he⟩

theorem toDigits_head (n : ℕ) : ∃ c r, Nat.toDigits 10 n = c :: r ∧ c.isDigit := by
  cases h : Nat.toDigits 10 n with
  | nil => exact absurd h Nat.toDigits_ne_nil
  | cons c r => exact ⟨c, r, rfl, Digits.allDigits_toDigits n c (by simp [h])⟩

theorem toDigits_ne_minus (n : ℕ) (t u : List Char) : Nat.toDigits 10 n ++ t ≠ '-' :: u := by
  obtain ⟨c, r, hc, hd⟩ := toDigits_head n
  intro h
  rw [hc, List.cons_append, List.cons.injEq] at h
  rw [h.1] at hd
  exact absurd hd (by decide)

theorem printInt_inj {n m : ℤ} {t u : List Char} (ht : Stops t) (hu : Stops u)
    (h : printInt n ++ t = printInt m ++ u) : n = m ∧ t = u := by
  unfold printInt at h
  split_ifs at h with hn hm hm
  · simp only [List.cons_append, List.cons.injEq, true_and] at h
    obtain ⟨he, h⟩ := toDigits_inj ht hu h
    exact ⟨by omega, h⟩
  · exact absurd h.symm (toDigits_ne_minus _ _ _)
  · exact absurd h (toDigits_ne_minus _ _ _)
  · obtain ⟨he, h⟩ := toDigits_inj ht hu h
    exact ⟨by omega, h⟩

def kind (c : Char) : ℕ :=
  if c = 'n' then 0 else if c = 't' ∨ c = 'f' then 1 else if c = '"' then 3
  else if c = '[' then 4 else if c = '\x7b' then 5 else 2

def constructorKind : Json → ℕ
  | .null => 0
  | .bool _ => 1
  | .int _ => 2
  | .str _ => 3
  | .arr _ => 4
  | .obj _ => 5

theorem kind_digit (c : Char) (h : c.isDigit) : kind c = 2 := by
  unfold kind
  split_ifs with h1 h2 h3 h4 h5
  · subst h1; exact absurd h (by decide)
  · rcases h2 with rfl | rfl <;> exact absurd h (by decide)
  · subst h3; exact absurd h (by decide)
  · subst h4; exact absurd h (by decide)
  · subst h5; exact absurd h (by decide)
  · rfl

theorem kind_print (j : Json) (t : List Char) :
    ((print j ++ t).head?).map kind = some (constructorKind j) := by
  cases j with
  | null => rfl
  | bool b => cases b <;> rfl
  | int n =>
    obtain ⟨c, r, hc, hd⟩ := toDigits_head n.natAbs
    unfold print printInt
    split_ifs
    · rfl
    · simp [hc, kind_digit c hd, constructorKind]
  | str s => rfl
  | arr items => rfl
  | obj fields => rfl

theorem stops_printItems (items : List Json) (t : List Char) : Stops (printItems items ++ t) := by
  cases items <;> exact stops_cons (by decide)

theorem stops_printFields (fields : List (String × Json)) (t : List Char) :
    Stops (printFields fields ++ t) := by
  cases fields with
  | nil => exact stops_cons (by decide)
  | cons p fields => exact stops_cons (by decide)

theorem constructorKind_eq {j j' : Json} {t t' : List Char} (h : print j ++ t = print j' ++ t') :
    constructorKind j = constructorKind j' := by
  have hk := congrArg (fun l => l.head?.map kind) h
  simpa only [kind_print, Option.some.injEq] using hk

theorem print_ne_bracket (j : Json) (t u : List Char) : print j ++ t ≠ ']' :: u := by
  intro h
  have hk := congrArg (fun l => l.head?.map kind) h
  simp only [kind_print, List.head?_cons, Option.map_some, Option.some.injEq] at hk
  have hb : kind ']' = 2 := by decide
  cases j with
  | int n =>
    obtain ⟨c, r, hc, hd⟩ := toDigits_head n.natAbs
    simp only [print, printInt] at h
    split_ifs at h
    · simp at h
    · rw [hc, List.cons_append, List.cons.injEq] at h
      exact absurd (h.1 ▸ hd) (by decide)
  | _ => simp [constructorKind, hb] at hk

mutual
/-- Printing determines the document, even with text after it that does not
    continue a number. The induction is over the document and, for containers,
    over the rest of the items or fields. -/
theorem print_inj (j j' : Json) (t t' : List Char) (ht : Stops t) (ht' : Stops t')
    (h : print j ++ t = print j' ++ t') : j = j' ∧ t = t' := by
  have hk := constructorKind_eq h
  cases j with
  | null =>
    cases j' <;> simp only [constructorKind] at hk <;> try omega
    exact ⟨rfl, List.append_cancel_left h⟩
  | bool b =>
    cases j' <;> simp only [constructorKind] at hk <;> try omega
    rename_i b'
    cases b <;> cases b'
    · exact ⟨rfl, List.append_cancel_left h⟩
    · exact absurd (List.cons.inj h).1 (by decide)
    · exact absurd (List.cons.inj h).1 (by decide)
    · exact ⟨rfl, List.append_cancel_left h⟩
  | int n =>
    cases j' <;> simp only [constructorKind] at hk <;> try omega
    simp only [print] at h
    obtain ⟨hn, hrest⟩ := printInt_inj ht ht' h
    exact ⟨congrArg Json.int hn, hrest⟩
  | str s =>
    cases j' <;> simp only [constructorKind] at hk <;> try omega
    simp only [print] at h
    obtain ⟨hs, hrest⟩ := printStr_inj h
    exact ⟨congrArg Json.str hs, hrest⟩
  | arr items =>
    cases j' <;> simp only [constructorKind] at hk <;> try omega
    rename_i items'
    simp only [print, List.cons_append, List.cons.injEq, true_and] at h
    cases items with
    | nil =>
      cases items' with
      | nil => exact ⟨rfl, by simpa [printArray] using h⟩
      | cons k items' =>
        simp only [printArray, List.append_assoc] at h
        exact absurd h.symm (print_ne_bracket k _ _)
    | cons k items =>
      cases items' with
      | nil =>
        simp only [printArray, List.append_assoc] at h
        exact absurd h (print_ne_bracket k _ _)
      | cons k' items' =>
        simp only [printArray, List.append_assoc] at h
        obtain ⟨rfl, hitems⟩ :=
          print_inj k k' _ _ (stops_printItems items t) (stops_printItems items' t') h
        obtain ⟨rfl, hrest⟩ := printItems_inj items items' t t' hitems
        exact ⟨rfl, hrest⟩
  | obj fields =>
    cases j' <;> simp only [constructorKind] at hk <;> try omega
    rename_i fields'
    simp only [print, List.cons_append, List.cons.injEq, true_and] at h
    cases fields with
    | nil =>
      cases fields' with
      | nil => exact ⟨rfl, by simpa [printObject] using h⟩
      | cons p fields' => simp [printObject, printStr] at h
    | cons p fields =>
      cases fields' with
      | nil => simp [printObject, printStr] at h
      | cons p' fields' =>
        obtain ⟨key, k⟩ := p
        obtain ⟨key', k'⟩ := p'
        simp only [printObject, List.append_assoc, List.cons_append] at h
        obtain ⟨rfl, hvalue⟩ := printStr_inj h
        simp only [List.cons.injEq, true_and] at hvalue
        obtain ⟨rfl, hfields⟩ :=
          print_inj k k' _ _ (stops_printFields fields t) (stops_printFields fields' t') hvalue
        obtain ⟨rfl, hrest⟩ := printFields_inj fields fields' t t' hfields
        exact ⟨rfl, hrest⟩
theorem printItems_inj (items items' : List Json) (t t' : List Char)
    (h : printItems items ++ t = printItems items' ++ t') : items = items' ∧ t = t' := by
  cases items with
  | nil =>
    cases items' with
    | nil => exact ⟨rfl, by simpa [printItems] using h⟩
    | cons k items' => simp [printItems] at h
  | cons k items =>
    cases items' with
    | nil => simp [printItems] at h
    | cons k' items' =>
      simp only [printItems, List.append_assoc, List.cons_append, List.cons.injEq, true_and] at h
      obtain ⟨rfl, hitems⟩ :=
        print_inj k k' _ _ (stops_printItems items t) (stops_printItems items' t') h
      obtain ⟨rfl, hrest⟩ := printItems_inj items items' t t' hitems
      exact ⟨rfl, hrest⟩
theorem printFields_inj (fields fields' : List (String × Json)) (t t' : List Char)
    (h : printFields fields ++ t = printFields fields' ++ t') : fields = fields' ∧ t = t' := by
  cases fields with
  | nil =>
    cases fields' with
    | nil => exact ⟨rfl, by simpa [printFields] using h⟩
    | cons p fields' => simp [printFields] at h
  | cons p fields =>
    cases fields' with
    | nil => simp [printFields] at h
    | cons p' fields' =>
      obtain ⟨key, k⟩ := p
      obtain ⟨key', k'⟩ := p'
      simp only [printFields, List.append_assoc, List.cons_append, List.cons.injEq, true_and] at h
      obtain ⟨rfl, hvalue⟩ := printStr_inj h
      simp only [List.cons.injEq, true_and] at hvalue
      obtain ⟨rfl, hfields⟩ :=
        print_inj k k' _ _ (stops_printFields fields t) (stops_printFields fields' t') hvalue
      obtain ⟨rfl, hrest⟩ := printFields_inj fields fields' t t' hfields
      exact ⟨rfl, hrest⟩
end

instance : DecidableEq Json := fun j j' =>
  decidable_of_iff (print j = print j')
    ⟨fun h => (print_inj j j' [] [] (by simp [Stops]) (by simp [Stops]) (by rw [h])).1,
      congrArg print⟩

theorem dumps_inj {j j' : Json} {s : String} (h : dumps j = .ok s) (h' : dumps j' = .ok s) :
    sortKeys j = sortKeys j' := by
  unfold dumps at h h'
  split_ifs at h h'
  have he := (Except.ok.inj h).trans (Except.ok.inj h').symm
  have hl : print (sortKeys j) = print (sortKeys j') := String.ofList_injective he
  exact (print_inj (sortKeys j) (sortKeys j') [] [] (by simp [Stops]) (by simp [Stops])
    (by rw [hl])).1

mutual
/-- Every object lists its keys once, in ascending order. -/
def Canonical : Json → Prop
  | .arr items => CanonicalItems items
  | .obj fields => Entries.Ascending fields ∧ CanonicalValues fields
  | _ => True
def CanonicalItems : List Json → Prop
  | [] => True
  | j :: items => Canonical j ∧ CanonicalItems items
def CanonicalValues : List (String × Json) → Prop
  | [] => True
  | (_, j) :: fields => Canonical j ∧ CanonicalValues fields
end

mutual
def decCanonical : (j : Json) → Decidable (Canonical j)
  | .arr items => decCanonicalItems items
  | .obj fields =>
    have := decCanonicalValues fields
    inferInstanceAs (Decidable (_ ∧ _))
  | .null => .isTrue trivial
  | .bool _ => .isTrue trivial
  | .int _ => .isTrue trivial
  | .str _ => .isTrue trivial
def decCanonicalItems : (items : List Json) → Decidable (CanonicalItems items)
  | [] => .isTrue trivial
  | j :: items =>
    have := decCanonical j
    have := decCanonicalItems items
    inferInstanceAs (Decidable (_ ∧ _))
def decCanonicalValues : (fields : List (String × Json)) → Decidable (CanonicalValues fields)
  | [] => .isTrue trivial
  | (_, j) :: fields =>
    have := decCanonical j
    have := decCanonicalValues fields
    inferInstanceAs (Decidable (_ ∧ _))
end

instance (j : Json) : Decidable (Canonical j) := decCanonical j

theorem sortFields_of_ascending {fields : List (String × Json)} (h : Entries.Ascending fields) :
    sortFields fields = fields :=
  List.Pairwise.insertionSort_eq (List.Pairwise.imp (fun hlt => hlt.le) h)

mutual
theorem sortKeys_of_canonical (j : Json) (h : Canonical j) : sortKeys j = j := by
  cases j with
  | arr items => rw [sortKeys, sortItems_of_canonical items h]
  | obj fields => rw [sortKeys, sortValues_of_canonical fields h.2, sortFields_of_ascending h.1]
  | _ => rfl
theorem sortItems_of_canonical (items : List Json) (h : CanonicalItems items) :
    sortItems items = items := by
  cases items with
  | nil => rfl
  | cons j items => rw [sortItems, sortKeys_of_canonical j h.1, sortItems_of_canonical items h.2]
theorem sortValues_of_canonical (fields : List (String × Json)) (h : CanonicalValues fields) :
    sortValues fields = fields := by
  cases fields with
  | nil => rfl
  | cons p fields =>
    obtain ⟨key, j⟩ := p
    rw [sortValues, sortKeys_of_canonical j h.1, sortValues_of_canonical fields h.2]
end

theorem canonicalValues_iff {fields : List (String × Json)} :
    CanonicalValues fields ↔ ∀ p ∈ fields, Canonical p.2 := by
  induction fields with
  | nil => simp [CanonicalValues]
  | cons p fields ih => simp [CanonicalValues, ih]

end Json

/-- A JSON value in its one representation. -/
structure FrozenJson where
  json : Json
  canonical : json.Canonical
  deriving DecidableEq

namespace FrozenJson

def str (s : String) : FrozenJson := ⟨.str s, trivial⟩

def int (n : ℤ) : FrozenJson := ⟨.int n, trivial⟩

end FrozenJson

/-- A `Mapping[str, FrozenJsonValue]`. -/
structure Mapping where
  fields : List (String × Json)
  canonical : (Json.obj fields).Canonical
  deriving DecidableEq

namespace Mapping

def empty : Mapping := ⟨[], List.Pairwise.nil, trivial⟩

def keys (m : Mapping) : List String := m.fields.map Prod.fst

/-- `m.get(key)`. -/
def get? (m : Mapping) (key : String) : Option Json := m.fields.lookup key

/-- `m[key] = value`. -/
def insert (m : Mapping) (key : String) (value : FrozenJson) : Mapping where
  fields := Entries.insert key value.json m.fields
  canonical := by
    refine ⟨m.canonical.1.insert, Json.canonicalValues_iff.mpr fun p hp => ?_⟩
    rcases Entries.mem_insert hp with rfl | hp
    · exact value.canonical
    · exact Json.canonicalValues_iff.mp m.canonical.2 p hp

/-- `m.update(entries)`. -/
def update (m : Mapping) (entries : List (String × FrozenJson)) : Mapping :=
  entries.foldl (fun m p => m.insert p.1 p.2) m

/-- `\x7bkey: value, ...\x7d`. -/
def ofEntries (entries : List (String × FrozenJson)) : Mapping := empty.update entries

def toFrozen (m : Mapping) : FrozenJson := ⟨.obj m.fields, m.canonical⟩

@[simp] theorem get?_empty (k : String) : empty.get? k = none := rfl

theorem get?_insert (m : Mapping) (key k : String) (value : FrozenJson) :
    (m.insert key value).get? k = if k = key then some value.json else m.get? k :=
  Entries.lookup_insert m.canonical.1

@[simp] theorem update_nil (m : Mapping) : m.update [] = m := rfl

@[simp] theorem update_cons (m : Mapping) (p : String × FrozenJson)
    (entries : List (String × FrozenJson)) :
    m.update (p :: entries) = (m.insert p.1 p.2).update entries := rfl

theorem get?_update_of_ne {m : Mapping} {entries : List (String × FrozenJson)} {k : String}
    (h : ∀ p ∈ entries, p.1 ≠ k) : (m.update entries).get? k = m.get? k := by
  induction entries generalizing m with
  | nil => rfl
  | cons p entries ih =>
    rw [update_cons, ih fun q hq => h q (List.mem_cons_of_mem _ hq), get?_insert,
      if_neg (h p List.mem_cons_self).symm]

theorem get?_update_eq_some {m : Mapping} {entries : List (String × FrozenJson)} {k : String}
    {value : Json} (h : (m.update entries).get? k = some value) :
    (∃ p ∈ entries, p.1 = k ∧ p.2.json = value) ∨ m.get? k = some value := by
  induction entries generalizing m with
  | nil => exact .inr h
  | cons p entries ih =>
    rcases ih h with ⟨q, hq, he⟩ | h
    · exact .inl ⟨q, List.mem_cons_of_mem _ hq, he⟩
    · rw [get?_insert] at h
      split_ifs at h with hk
      · exact .inl ⟨p, List.mem_cons_self, hk.symm, Option.some.inj h⟩
      · exact .inr h

theorem mem_keys_iff (m : Mapping) (k : String) : k ∈ m.keys ↔ (m.get? k).isSome := by
  simp only [keys, List.mem_map, Prod.exists, exists_and_right, exists_eq_right, get?,
    Option.isSome_iff_exists, Entries.mem_iff_lookup m.canonical.1]

theorem contains_keys (m : Mapping) (k : String) : m.keys.contains k = (m.get? k).isSome := by
  rw [Bool.eq_iff_iff, List.contains_iff_mem, mem_keys_iff]

theorem mem_keys_insert (m : Mapping) (key k : String) (value : FrozenJson) :
    k ∈ (m.insert key value).keys ↔ k = key ∨ k ∈ m.keys := by
  rw [mem_keys_iff, mem_keys_iff, get?_insert]
  by_cases hk : k = key <;> simp [hk]

@[simp] theorem all_keys_empty (f : String → Bool) : empty.keys.all f = true := rfl

theorem all_keys_insert (m : Mapping) (key : String) (value : FrozenJson) (f : String → Bool) :
    (m.insert key value).keys.all f = (f key && m.keys.all f) := by
  rw [Bool.eq_iff_iff]
  simp only [List.all_eq_true, Bool.and_eq_true, mem_keys_insert]
  exact ⟨fun h => ⟨h key (.inl rfl), fun k hk => h k (.inr hk)⟩,
    fun h k hk => hk.elim (fun he => he ▸ h.1) (h.2 k)⟩

end Mapping
end Python
