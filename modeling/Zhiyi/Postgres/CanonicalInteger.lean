import Zhiyi.Domain.CanonicalDecimal
import Zhiyi.Library.DateTime
import Zhiyi.Library.JsonText

set_option autoImplicit false

/-! Canonical decimal integers of any size, converted in chunks of nine digits so
that no single conversion meets the interpreter's digit limit. -/
namespace Zhiyi
open Python

def integerBase : ℕ := 1000000000

def chunkDigits : ℕ := 9

/-- The digits of a positive integer: its head chunk, then chunks of nine. -/
def encodeChunks (n : ℕ) : List Char :=
  match (Nat.digits integerBase n).reverse with
  | [] => []
  | head :: body => Nat.toDigits 10 head ++ body.flatMap (DateTime.padded chunkDigits)

def encodeCanonicalInteger (value : ℤ) : String :=
  if value = 0 then "0"
  else String.ofList ((if value < 0 then ['-'] else []) ++ encodeChunks value.natAbs)

/-- `[1-9][0-9]*`. -/
def matchesPositive : List Char → Bool
  | [] => false
  | c :: cs => c.isDigit && c != '0' && cs.all Char.isDigit

/-- `(?:0|-?[1-9][0-9]*)\Z`. -/
def matchesIntegerPattern (cs : List Char) : Bool :=
  match cs with
  | ['0'] => true
  | '-' :: cs => matchesPositive cs
  | cs => matchesPositive cs

/-- The loop over chunk positions. The fuel bounds the number of digits. -/
def decodeChunks : ℕ → ℕ → List Char → ℕ → ℕ
  | 0, _, _, result => result
  | fuel + 1, size, digits, result =>
    if digits = [] then result
    else
      decodeChunks fuel chunkDigits (digits.drop size)
        (result * 10 ^ (digits.take size).length + Nat.ofDigitChars 10 (digits.take size) 0)

def decodeDigits (digits : List Char) : ℕ :=
  let firstSize := if digits.length % chunkDigits = 0 then chunkDigits else digits.length % chunkDigits
  decodeChunks digits.length firstSize digits 0

def decodeCanonicalInteger (cs : List Char) : Except PyError ℤ :=
  if matchesIntegerPattern cs then
    match cs with
    | '-' :: digits => .ok (-(decodeDigits digits : ℤ))
    | digits => .ok (decodeDigits digits)
  else .error (.valueError "integer token is not canonical")

theorem padded_of_lt {w r : ℕ} (h : r < 10) :
    DateTime.padded (w + 1) r = List.replicate w '0' ++ Nat.toDigits 10 r := by
  simp [DateTime.padded, Nat.toDigits_of_lt_base h]

theorem padded_of_le {w r : ℕ} (h : 10 ≤ r) :
    DateTime.padded (w + 1) r = DateTime.padded w (r / 10) ++ Nat.toDigits 10 (r % 10) := by
  have hsplit : Nat.toDigits 10 r = Nat.toDigits 10 (r / 10) ++ Nat.toDigits 10 (r % 10) := by
    rw [Nat.toDigits_append_toDigits (by norm_num) (by omega) (Nat.mod_lt _ (by norm_num))]
    congr 1
    omega
  have hone : (Nat.toDigits 10 (r % 10)).length = 1 := by
    rw [Nat.toDigits_of_lt_base (Nat.mod_lt _ (by norm_num))]
    rfl
  have hlength : w + 1 - (Nat.toDigits 10 r).length = w - (Nat.toDigits 10 (r / 10)).length := by
    rw [hsplit, List.length_append, hone]
    omega
  unfold DateTime.padded
  simp only [hlength]
  rw [hsplit, List.append_assoc]

theorem toDigits_padded (w : ℕ) {q r : ℕ} (hq : 0 < q) (hr : r < 10 ^ (w + 1)) :
    Nat.toDigits 10 q ++ DateTime.padded (w + 1) r = Nat.toDigits 10 (q * 10 ^ (w + 1) + r) := by
  induction w generalizing r with
  | zero =>
    have hlt : r < 10 := by simpa using hr
    rw [padded_of_lt hlt, List.replicate_zero, List.nil_append,
      Nat.toDigits_append_toDigits (by norm_num) hq hlt]
    congr 1
    omega
  | succ w ih =>
    have hpow : q * 10 ^ (w + 1 + 1) = 10 * (q * 10 ^ (w + 1)) := by ring
    have hpos : 0 < q * 10 ^ (w + 1) := Nat.mul_pos hq (Nat.pow_pos (by norm_num))
    by_cases hlt : r < 10
    · have hzero := ih (r := 0) (Nat.pow_pos (by norm_num))
      rw [padded_of_lt (by norm_num), Nat.toDigits_zero] at hzero
      rw [padded_of_lt hlt, List.replicate_succ', ← List.append_assoc, hzero, Nat.add_zero,
        Nat.toDigits_append_toDigits (by norm_num) hpos hlt, hpow]
    · have hdiv : r / 10 < 10 ^ (w + 1) := by
        rw [Nat.div_lt_iff_lt_mul (by norm_num)]
        calc r < 10 ^ (w + 1 + 1) := hr
          _ = 10 ^ (w + 1) * 10 := by ring
      rw [padded_of_le (by omega), ← List.append_assoc, ih hdiv,
        Nat.toDigits_append_toDigits (by norm_num) (by omega) (Nat.mod_lt _ (by norm_num)), hpow]
      congr 1
      omega

theorem toDigits_chunks (body : List ℕ) {head : ℕ} (hhead : 0 < head)
    (hbody : ∀ c ∈ body, c < integerBase) :
    Nat.toDigits 10 head ++ body.flatMap (DateTime.padded chunkDigits) =
      Nat.toDigits 10 (body.foldl (fun n c => n * integerBase + c) head) := by
  induction body generalizing head with
  | nil => simp
  | cons c body ih =>
    rw [List.flatMap_cons, ← List.append_assoc, List.foldl_cons]
    have hc : c < 10 ^ (8 + 1) := hbody c List.mem_cons_self
    have hstep : Nat.toDigits 10 head ++ DateTime.padded chunkDigits c =
        Nat.toDigits 10 (head * integerBase + c) := toDigits_padded 8 hhead hc
    rw [hstep]
    refine ih ?_ fun d hd => hbody d (List.mem_cons_of_mem _ hd)
    have := Nat.mul_pos hhead (show 0 < integerBase by decide)
    omega

theorem foldl_reverse_digits (ds : List ℕ) :
    ds.reverse.foldl (fun n c => n * integerBase + c) 0 = Nat.ofDigits integerBase ds := by
  induction ds with
  | nil => rfl
  | cons d ds ih =>
    rw [List.reverse_cons, List.foldl_append, ih, Nat.ofDigits_cons]
    simp [Nat.mul_comm, Nat.add_comm]

theorem encodeChunks_eq {n : ℕ} (hn : 0 < n) : encodeChunks n = Nat.toDigits 10 n := by
  have hne : Nat.digits integerBase n ≠ [] := Nat.digits_ne_nil_iff_ne_zero.mpr hn.ne'
  have hfold := foldl_reverse_digits (Nat.digits integerBase n)
  rw [Nat.ofDigits_digits] at hfold
  have hlast := Nat.getLast_digit_ne_zero integerBase hn.ne'
  unfold encodeChunks
  cases hrev : (Nat.digits integerBase n).reverse with
  | nil => exact absurd (List.reverse_eq_nil_iff.mp hrev) hne
  | cons head body =>
    have hhead : head ≠ 0 := by
      have hget : (Nat.digits integerBase n).getLast hne = head := by
        rw [← List.head_reverse (by simpa using hne)]
        simp [hrev]
      rwa [hget] at hlast
    rw [hrev, List.foldl_cons, Nat.zero_mul, Nat.zero_add] at hfold
    have hbody : ∀ c ∈ body, c < integerBase := by
      intro c hc
      have hmem : c ∈ (Nat.digits integerBase n).reverse := by
        rw [hrev]
        exact List.mem_cons_of_mem _ hc
      exact Nat.digits_lt_base (by decide) (List.mem_reverse.mp hmem)
    simp only
    rw [toDigits_chunks body (Nat.pos_of_ne_zero hhead) hbody, hfold]

theorem encodeCanonicalInteger_eq (n : ℤ) :
    encodeCanonicalInteger n = String.ofList (Json.printInt n) := by
  unfold encodeCanonicalInteger Json.printInt
  by_cases hz : n = 0
  · subst hz
    rfl
  · rw [if_neg hz, encodeChunks_eq (by omega)]
    split_ifs <;> rfl

theorem decodeChunks_eq (fuel size : ℕ) (digits : List Char) (result : ℕ) (hsize : 0 < size)
    (hfuel : digits.length ≤ fuel) :
    decodeChunks fuel size digits result = Nat.ofDigitChars 10 digits result := by
  induction fuel generalizing size digits result with
  | zero =>
    have hnil : digits = [] := List.length_eq_zero_iff.mp (by omega)
    subst hnil
    simp [decodeChunks]
  | succ fuel ih =>
    unfold decodeChunks
    split_ifs with hnil
    · subst hnil
      simp
    · have hpos : 0 < digits.length := List.length_pos_iff.mpr hnil
      rw [ih chunkDigits _ _ (by decide) (by rw [List.length_drop]; omega)]
      have happend := Nat.ofDigitChars_append (b := 10) (l := digits.take size)
        (m := digits.drop size) result
      rw [List.take_append_drop] at happend
      rw [happend]
      congr 1
      rw [Nat.mul_comm]
      exact (Nat.ofDigitChars_eq_ofDigitChars_zero ..).symm

theorem decodeDigits_toDigits (n : ℕ) : decodeDigits (Nat.toDigits 10 n) = n := by
  unfold decodeDigits
  rw [decodeChunks_eq _ _ _ _ ?_ le_rfl, Nat.ofDigitChars_ten_toDigits]
  split_ifs with h
  · decide
  · omega

theorem matchesPositive_toDigits {n : ℕ} (hn : n ≠ 0) :
    matchesPositive (Nat.toDigits 10 n) = true := by
  obtain ⟨c, rest, hc, hne⟩ := toDigits_head_ne_zero n hn
  have hdigit := Digits.allDigits_toDigits n
  rw [hc] at hdigit ⊢
  simp only [matchesPositive, Bool.and_eq_true, bne_iff_ne, ne_eq, List.all_eq_true]
  exact ⟨⟨hdigit c List.mem_cons_self, hne⟩, fun d hd => hdigit d (List.mem_cons_of_mem _ hd)⟩

theorem decodeCanonicalInteger_printInt (n : ℤ) :
    decodeCanonicalInteger (Json.printInt n) = .ok n := by
  by_cases hz : n = 0
  · subst hz
    rfl
  have hpositive := matchesPositive_toDigits (n := n.natAbs) (by omega)
  have hdecode := decodeDigits_toDigits n.natAbs
  unfold Json.printInt
  split_ifs with hneg
  · simp only [decodeCanonicalInteger, matchesIntegerPattern, hpositive, if_true, hdecode]
    rw [show -(n.natAbs : ℤ) = n by omega]
  · obtain ⟨c, rest, hc, hd⟩ := Json.toDigits_head n.natAbs
    have hminus : c ≠ '-' := by
      rintro rfl
      revert hd
      decide
    rw [hc] at hpositive hdecode ⊢
    have hmatch : matchesIntegerPattern (c :: rest) = true := by
      unfold matchesIntegerPattern
      split <;> simp_all
    unfold decodeCanonicalInteger
    rw [if_pos hmatch]
    split
    · next h => exact absurd (List.cons.inj h).1 hminus
    · rw [hdecode, show (n.natAbs : ℤ) = n by omega]

end Zhiyi
