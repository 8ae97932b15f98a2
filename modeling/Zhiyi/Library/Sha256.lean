import Zhiyi.Library.Digits

set_option autoImplicit false

/-! SHA-256 over byte lists, and its hexadecimal digest of a text. -/
namespace Sha256
open Digits (hexDigit)

def mask (n : ℕ) : ℕ := n % 4294967296

def rotr (k x : ℕ) : ℕ := (x >>> k) ||| mask (x <<< (32 - k))

def roundConstants : List ℕ := [
  0x428a2f98, 0x71374491, 0xb5c0fbcf, 0xe9b5dba5, 0x3956c25b, 0x59f111f1, 0x923f82a4, 0xab1c5ed5,
  0xd807aa98, 0x12835b01, 0x243185be, 0x550c7dc3, 0x72be5d74, 0x80deb1fe, 0x9bdc06a7, 0xc19bf174,
  0xe49b69c1, 0xefbe4786, 0x0fc19dc6, 0x240ca1cc, 0x2de92c6f, 0x4a7484aa, 0x5cb0a9dc, 0x76f988da,
  0x983e5152, 0xa831c66d, 0xb00327c8, 0xbf597fc7, 0xc6e00bf3, 0xd5a79147, 0x06ca6351, 0x14292967,
  0x27b70a85, 0x2e1b2138, 0x4d2c6dfc, 0x53380d13, 0x650a7354, 0x766a0abb, 0x81c2c92e, 0x92722c85,
  0xa2bfe8a1, 0xa81a664b, 0xc24b8b70, 0xc76c51a3, 0xd192e819, 0xd6990624, 0xf40e3585, 0x106aa070,
  0x19a4c116, 0x1e376c08, 0x2748774c, 0x34b0bcb5, 0x391c0cb3, 0x4ed8aa4a, 0x5b9cca4f, 0x682e6ff3,
  0x748f82ee, 0x78a5636f, 0x84c87814, 0x8cc70208, 0x90befffa, 0xa4506ceb, 0xbef9a3f7, 0xc67178f2]

def initialHash : List ℕ :=
  [0x6a09e667, 0xbb67ae85, 0x3c6ef372, 0xa54ff53a, 0x510e527f, 0x9b05688c, 0x1f83d9ab, 0x5be0cd19]

def choose (x y z : ℕ) : ℕ := (x &&& y) ^^^ ((4294967295 ^^^ x) &&& z)
def majority (x y z : ℕ) : ℕ := (x &&& y) ^^^ (x &&& z) ^^^ (y &&& z)
def bigSigma0 (x : ℕ) : ℕ := rotr 2 x ^^^ rotr 13 x ^^^ rotr 22 x
def bigSigma1 (x : ℕ) : ℕ := rotr 6 x ^^^ rotr 11 x ^^^ rotr 25 x
def smallSigma0 (x : ℕ) : ℕ := rotr 7 x ^^^ rotr 18 x ^^^ (x >>> 3)
def smallSigma1 (x : ℕ) : ℕ := rotr 17 x ^^^ rotr 19 x ^^^ (x >>> 10)

/-- The rounds for the constants `ks`. The window holds the next 16 words of the
    message schedule. -/
def rounds : List ℕ → List ℕ → List ℕ → List ℕ
  | k :: ks,
    w0 :: w1 :: w2 :: w3 :: w4 :: w5 :: w6 :: w7 :: w8 :: w9 :: w10 :: w11 :: w12 :: w13 :: w14 ::
      w15 :: _,
    [a, b, c, d, e, f, g, h] =>
    let t1 := mask (h + bigSigma1 e + choose e f g + k + w0)
    let t2 := mask (bigSigma0 a + majority a b c)
    let w16 := mask (smallSigma1 w14 + w9 + smallSigma0 w1 + w0)
    rounds ks [w1, w2, w3, w4, w5, w6, w7, w8, w9, w10, w11, w12, w13, w14, w15, w16]
      [mask (t1 + t2), a, b, c, mask (d + t1), e, f, g]
  | _, _, state => state

def word (bytes : List ℕ) : ℕ := bytes.foldl (fun n b => n * 256 + b) 0

def chunks (k : ℕ) : ℕ → List ℕ → List (List ℕ)
  | 0, _ => []
  | n + 1, l => l.take k :: chunks k n (l.drop k)

def pad (bytes : List ℕ) : List ℕ :=
  let n := bytes.length
  bytes ++ 128 :: List.replicate ((119 - n % 64) % 64) 0 ++
    (List.range 8).map fun i => (8 * n) >>> (8 * (7 - i)) % 256

def compress (state block : List ℕ) : List ℕ :=
  List.zipWith (fun x y => mask (x + y)) state
    (rounds roundConstants ((chunks 4 16 block).map word) state)

def digest (bytes : List ℕ) : List ℕ :=
  let padded := pad bytes
  ((chunks 64 (padded.length / 64) padded).foldl compress initialHash).flatMap
    fun w => [(w >>> 24) % 256, (w >>> 16) % 256, (w >>> 8) % 256, w % 256]

def utf8 (s : String) : List ℕ :=
  s.toList.flatMap fun c => (String.utf8EncodeChar c).map UInt8.toNat

/-- `hashlib.sha256(s.encode("utf-8")).hexdigest()`. -/
def hexdigest (s : String) : String :=
  String.ofList ((digest (utf8 s)).flatMap fun b => [hexDigit (b / 16), hexDigit (b % 16)])

theorem rounds_length (ks ws state : List ℕ) : (rounds ks ws state).length = state.length := by
  fun_induction rounds ks ws state with
  | case1 k ks w0 w1 w2 w3 w4 w5 w6 w7 w8 w9 w10 w11 w12 w13 w14 w15 ws a b c d e f g h t1 t2 w16
      ih => exact ih
  | case2 => rfl

theorem compress_length (state block : List ℕ) : (compress state block).length = state.length := by
  simp [compress, rounds_length]

theorem foldl_compress_length (blocks : List (List ℕ)) (state : List ℕ) :
    (blocks.foldl compress state).length = state.length := by
  induction blocks generalizing state with
  | nil => rfl
  | cons block blocks ih => rw [List.foldl_cons, ih, compress_length]

theorem digest_length (bytes : List ℕ) : (digest bytes).length = 32 := by
  simp [digest, List.length_flatMap, foldl_compress_length, initialHash]

theorem hexdigest_length (s : String) : (hexdigest s).toList.length = 64 := by
  simp [hexdigest, List.length_flatMap, digest_length]

def isHex (c : Char) : Bool := "0123456789abcdef".toList.contains c

theorem isHex_hexDigit (n : ℕ) : isHex (hexDigit n) = true := by
  by_cases h : n < 16
  · revert n
    decide
  · have hout : hexDigit n = '0' := by
      unfold hexDigit
      rw [List.getD_eq_getElem?_getD, List.getElem?_eq_none]
      · rfl
      · change 16 ≤ n
        omega
    rw [hout]
    decide

theorem hexdigest_isHex (s : String) : ∀ c ∈ (hexdigest s).toList, isHex c = true := by
  intro c hc
  simp only [hexdigest, String.toList_ofList, List.mem_flatMap, List.mem_cons, List.not_mem_nil,
    or_false] at hc
  obtain ⟨b, -, rfl | rfl⟩ := hc <;> exact isHex_hexDigit _

example : hexdigest "abc" = "ba7816bf8f01cfea414140de5dae2223b00361a396177a9cb410ff61f20015ad" := by
  decide +kernel

end Sha256
