import Mathlib

set_option autoImplicit false

/-! The parts of Python's data model the development rests on: exceptions,
conversions between integers and decimal strings with CPython's digit limit,
finite non-negative decimals, and aware UTC datetimes. -/
namespace Python

inductive PyError where
  | valueError (message : String)
  | typeError (message : String)
  | overflowError (message : String)
  deriving DecidableEq, Repr

theorem bind_eq_ok {ε α β : Type} {x : Except ε α} {f : α → Except ε β} {b : β} :
    (x >>= f) = .ok b ↔ ∃ a, x = .ok a ∧ f a = .ok b := by
  cases x <;> simp [bind, Except.bind]

theorem map_eq_ok {ε α β : Type} {x : Except ε α} {f : α → β} {b : β} :
    x.map f = .ok b ↔ ∃ a, x = .ok a ∧ f a = b := by
  cases x <;> simp [Except.map]

theorem mapError_eq_ok {ε δ α : Type} {x : Except ε α} {f : ε → δ} {a : α} :
    x.mapError f = .ok a ↔ x = .ok a := by
  cases x <;> simp [Except.mapError]

theorem bind_eq_error {ε α β : Type} {x : Except ε α} {f : α → Except ε β} {e : ε} :
    (x >>= f) = .error e ↔ x = .error e ∨ ∃ a, x = .ok a ∧ f a = .error e := by
  cases x <;> simp [bind, Except.bind]

/-- `if not condition: raise error`. -/
def require {ε : Type} (condition : Bool) (error : ε) : Except ε Unit :=
  if condition then .ok () else .error error

@[simp] theorem require_eq_ok {ε : Type} {condition : Bool} {error : ε} {u : Unit} :
    require condition error = .ok u ↔ condition = true := by
  cases condition <;> simp [require]

theorem require_eq_error {ε : Type} {condition : Bool} {error e : ε} :
    require condition error = .error e ↔ condition = false ∧ error = e := by
  cases condition <;> simp [require]

@[simp] theorem require_true {ε : Type} (error : ε) : require true error = .ok () := rfl

@[simp] theorem require_false {ε : Type} (error : ε) : require false error = .error error := rfl

theorem forM_eq_ok {ε α : Type} {f : α → Except ε Unit} {l : List α} (h : l.forM f = .ok ()) :
    ∀ a ∈ l, f a = .ok () := by
  induction l with
  | nil => simp
  | cons a l ih =>
    obtain ⟨_, ha, hl⟩ := bind_eq_ok.mp (show (f a >>= fun _ => l.forM f) = .ok () from h)
    intro b hb
    rcases List.mem_cons.mp hb with rfl | hb
    · exact ha
    · exact ih hl b hb

theorem forM_eq_error {ε α : Type} {f : α → Except ε Unit} {l : List α} {e : ε}
    (h : l.forM f = .error e) : ∃ a ∈ l, f a = .error e := by
  induction l with
  | nil => cases h
  | cons a l ih =>
    rcases bind_eq_error.mp (show (f a >>= fun _ => l.forM f) = .error e from h) with ha | ⟨_, -, hl⟩
    · exact ⟨a, List.mem_cons_self, ha⟩
    · obtain ⟨b, hb, hfb⟩ := ih hl
      exact ⟨b, List.mem_cons_of_mem _ hb, hfb⟩

/-- A frozen dataclass: the value exists once `__post_init__` has passed. -/
def construct {ε α : Type} : (postInit : Except ε Unit) → (postInit = .ok () → α) → Except ε α
  | .ok (), value => .ok (value rfl)
  | .error e, _ => .error e

theorem construct_of_ok {ε α : Type} {postInit : Except ε Unit} (value : postInit = .ok () → α)
    (h : postInit = .ok ()) : construct postInit value = .ok (value h) := by
  subst h
  rfl

theorem construct_of_error {ε α : Type} {postInit : Except ε Unit} (value : postInit = .ok () → α)
    {e : ε} (h : postInit = .error e) : construct postInit value = .error e := by
  subst h
  rfl

theorem construct_eq_ok {ε α : Type} {postInit : Except ε Unit} {value : postInit = .ok () → α}
    {a : α} (h : construct postInit value = .ok a) : ∃ hp, value hp = a := by
  match postInit, value with
  | .ok (), value => exact ⟨rfl, Except.ok.inj h⟩
  | .error e, value => cases h

/-- `sys.get_int_max_str_digits()`. -/
def maxStrDigits : ℕ := 4300

/-- At most `maxStrDigits` decimal digits, the sign apart. -/
def WithinStrDigits (n : ℕ) : Prop := n < 10 ^ maxStrDigits

instance (n : ℕ) : Decidable (WithinStrDigits n) := inferInstanceAs (Decidable (_ < _))

theorem WithinStrDigits.mono {n m : ℕ} (h : m ≤ n) (hn : WithinStrDigits n) : WithinStrDigits m :=
  Nat.lt_of_le_of_lt h hn

def digitLimit : PyError :=
  .valueError "Exceeds the limit (4300 digits) for integer string conversion"

/-- `str(n)` for a non-negative integer. -/
def intToStr (n : ℕ) : Except PyError String :=
  if WithinStrDigits n then .ok n.repr else .error digitLimit

theorem repr_injective : Function.Injective Nat.repr := by
  intro n m h
  have hc := congrArg String.toList h
  simp only [Nat.toList_repr] at hc
  have hd := congrArg (Nat.ofDigitChars 10 · 0) hc
  simpa only [Nat.ofDigitChars_ten_toDigits] using hd

/-- `num / den` rounded to the nearest integer, and to an even one halfway. -/
def roundHalfEven (num den : ℕ) : ℕ :=
  let q := num / den
  let r := num % den
  if 2 * r < den then q else if den < 2 * r then q + 1 else if q % 2 = 0 then q else q + 1

end Python
