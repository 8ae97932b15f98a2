import Mathlib

set_option autoImplicit false

/-! Interleavings as runs of a deterministic machine. Every choice of the
environment (who moves next, which clock reading, which fresh identifier) is
part of the input, so a history is a list of inputs and an interleaving is a
fold. The rules below package the inductions over histories once. -/
namespace Interleaving

structure Machine (σ ι : Type) where
  start : σ
  step : σ → ι → σ

namespace Machine
variable {σ ι : Type} (m : Machine σ ι)

def runFrom (s : σ) (h : List ι) : σ := h.foldl m.step s

def run (h : List ι) : σ := m.runFrom m.start h

@[simp] theorem runFrom_nil (s : σ) : m.runFrom s [] = s := rfl

@[simp] theorem runFrom_cons (s : σ) (i : ι) (h : List ι) :
    m.runFrom s (i :: h) = m.runFrom (m.step s i) h := rfl

theorem runFrom_append (s : σ) (h k : List ι) :
    m.runFrom s (h ++ k) = m.runFrom (m.runFrom s h) k := by
  simp [runFrom]

theorem run_append (h k : List ι) : m.run (h ++ k) = m.runFrom (m.run h) k :=
  m.runFrom_append m.start h k

theorem run_concat (h : List ι) (i : ι) : m.run (h ++ [i]) = m.step (m.run h) i :=
  m.run_append h [i]

/-- What a state predicate needs to hold after every history. -/
structure Invariant (P : σ → Prop) : Prop where
  base : P m.start
  kept : ∀ s i, P s → P (m.step s i)

variable {m}

theorem Invariant.runFrom {P : σ → Prop} (hp : ∀ s i, P s → P (m.step s i)) {s : σ}
    (hs : P s) (h : List ι) : P (m.runFrom s h) := by
  induction h generalizing s with
  | nil => exact hs
  | cons i h ih => exact ih (hp s i hs)

theorem Invariant.run {P : σ → Prop} (hp : m.Invariant P) (h : List ι) : P (m.run h) :=
  Invariant.runFrom hp.kept hp.base h

/-- An invariant may be proved on top of one that is already known. -/
theorem Invariant.strengthen {P Q : σ → Prop} (hp : m.Invariant P) (base : Q m.start)
    (kept : ∀ s i, P s → Q s → Q (m.step s i)) : m.Invariant (fun s => P s ∧ Q s) where
  base := ⟨hp.base, base⟩
  kept s i hs := ⟨hp.kept s i hs.1, kept s i hs.1 hs.2⟩

/-- A reflexive, transitive relation kept by every step relates a state to
    everything that can follow it. -/
theorem Invariant.related {P : σ → Prop} {R : σ → σ → Prop} (hp : m.Invariant P)
    (refl : ∀ s, R s s) (trans : ∀ s u v, R s u → R u v → R s v)
    (kept : ∀ s i, P s → R s (m.step s i)) {s : σ} (hs : P s) (h : List ι) :
    R s (m.runFrom s h) := by
  induction h generalizing s with
  | nil => exact refl s
  | cons i h ih => exact trans _ _ _ (kept s i hs) (ih (hp.kept s i hs))

theorem Invariant.stable {P Q : σ → Prop} (hp : m.Invariant P)
    (kept : ∀ s i, P s → Q s → Q (m.step s i)) {s : σ} (hs : P s) (hq : Q s)
    (h : List ι) : Q (m.runFrom s h) := by
  have both : P (m.runFrom s h) ∧ Q (m.runFrom s h) :=
    Invariant.runFrom (P := fun s => P s ∧ Q s)
      (fun s i hpq => ⟨hp.kept s i hpq.1, kept s i hpq.1 hpq.2⟩) ⟨hs, hq⟩ h
  exact both.2

end Machine
end Interleaving
