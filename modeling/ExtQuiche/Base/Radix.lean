import Mathlib.Data.List.Basic
import Mathlib.Data.Nat.Digits.Defs

/-!
# Numerals of unsigned integers

Library `Base`. Reading an unsigned integer below a bound from a text in some radix, as
`from_str_radix` and `parse` of Rust do, and its relation to the digits that formatting
writes. A leading `+` is skipped, digits of both cases are read, and anything else, an
empty text and a value from the bound on are refused.
-/

namespace ExtQuiche.Base

/-- Value of a character as a digit of any radix up to 36, else a value that no digit has. -/
def digitValue (c : Char) : Nat :=
  if '0'.toNat ≤ c.toNat ∧ c.toNat ≤ '9'.toNat then c.toNat - '0'.toNat
  else if 'a'.toNat ≤ c.toNat ∧ c.toNat ≤ 'z'.toNat then c.toNat - 'a'.toNat + 10
  else if 'A'.toNat ≤ c.toNat ∧ c.toNat ≤ 'Z'.toNat then c.toNat - 'A'.toNat + 10
  else 36

/-- Value of a digit, `char::to_digit` of a radix up to 36. -/
def toDigit (radix : Nat) (c : Char) : Option Nat :=
  if digitValue c < radix then some (digitValue c) else none

/-- The digits are read after those that made `n`, as long as the value stays below the bound. -/
def readDigits (radix bound : Nat) : Nat → List Char → Option Nat
  | n, [] => some n
  | n, c :: cs =>
    (toDigit radix c).bind fun d ↦
      if n * radix + d < bound then readDigits radix bound (n * radix + d) cs else none

/-- `from_str_radix` of an unsigned type with `bound` values. -/
def fromStrRadix (radix bound : Nat) : List Char → Option Nat
  | [] => none
  | ['+'] => none
  | '+' :: cs => readDigits radix bound 0 cs
  | c :: cs => readDigits radix bound 0 (c :: cs)

/-- Value of the digits after those that made `n`. -/
def valueFrom (radix n : Nat) (ds : List Nat) : Nat := ds.foldl (fun n d ↦ n * radix + d) n

/-- The characters are digits with these values. -/
def Spells (radix : Nat) (cs : List Char) (ds : List Nat) : Prop :=
  cs.map (toDigit radix) = ds.map some

section

variable {radix bound : Nat}

/-- A digit that formatting writes is read as its value. -/
theorem toDigit_digitChar (hr : radix ≤ 16) {d : Nat} (hd : d < radix) :
    toDigit radix d.digitChar = some d := by
  have hall : ∀ d < 16, digitValue d.digitChar = d := by decide
  have hvalue : digitValue d.digitChar = d := hall d (by omega)
  rw [toDigit, hvalue, if_pos hd]

/-- A digit is below the radix. -/
theorem toDigit_lt {c : Char} {d : Nat} (h : toDigit radix c = some d) : d < radix := by
  unfold toDigit at h
  split at h
  · next hlt =>
    cases h
    exact hlt
  · cases h

/-- The sign is no digit. -/
theorem toDigit_plus (hr : radix ≤ 36) : toDigit radix '+' = none := by
  have hvalue : digitValue '+' = 36 := by decide
  rw [toDigit, hvalue, if_neg (by omega)]

/-- More digits bring the value up. -/
theorem le_valueFrom (hr : 0 < radix) (n : Nat) (ds : List Nat) : n ≤ valueFrom radix n ds := by
  induction ds generalizing n with
  | nil => exact Nat.le_refl _
  | cons d ds ih =>
    have hstep : n ≤ n * radix + d :=
      Nat.le_trans (Nat.le_mul_of_pos_right n hr) (Nat.le_add_right ..)
    exact Nat.le_trans hstep (ih _)

/-- Digits are read exactly where every character is one and the value stays below the bound. -/
theorem readDigits_eq_some_iff (hr : 0 < radix) {n m : Nat} {cs : List Char} (hn : n < bound) :
    readDigits radix bound n cs = some m ↔
      ∃ ds, Spells radix cs ds ∧ valueFrom radix n ds = m ∧ m < bound := by
  induction cs generalizing n with
  | nil =>
    constructor
    · intro h
      cases h
      exact ⟨[], rfl, rfl, hn⟩
    · rintro ⟨ds, hs, rfl, -⟩
      have hds : ds = [] := List.map_eq_nil_iff.mp hs.symm
      rw [hds]
      rfl
  | cons c cs ih =>
    constructor
    · intro h
      obtain ⟨d, hd, h⟩ := Option.bind_eq_some_iff.mp h
      split at h
      · next hlt =>
        obtain ⟨ds, hs, hvalue, hm⟩ := (ih hlt).mp h
        refine ⟨d :: ds, ?_, hvalue, hm⟩
        unfold Spells at hs ⊢
        rw [List.map_cons, List.map_cons, hd, hs]
      · cases h
    · rintro ⟨ds, hs, hvalue, hm⟩
      unfold Spells at hs
      obtain ⟨d, ds, rfl, hd, hs⟩ := List.map_eq_cons_iff.mp hs.symm
      have hvalue' : valueFrom radix (n * radix + d) ds = m := hvalue
      have hlt : n * radix + d < bound := by
        have hle := le_valueFrom hr (n * radix + d) ds
        omega
      refine Option.bind_eq_some_iff.mpr ⟨d, hd.symm, ?_⟩
      rw [if_pos hlt]
      exact (ih hlt).mpr ⟨ds, hs.symm, hvalue', hm⟩

/-- What is read: digits after an optional sign, with a value below the bound. -/
theorem fromStrRadix_eq_some_iff (hr : 0 < radix) (hr36 : radix ≤ 36) (hbound : 0 < bound)
    {s : List Char} {n : Nat} :
    fromStrRadix radix bound s = some n ↔ ∃ cs ds, (s = cs ∨ s = '+' :: cs) ∧ cs ≠ [] ∧
      Spells radix cs ds ∧ valueFrom radix 0 ds = n ∧ n < bound := by
  have hplus : ∀ cs ds, ¬ Spells radix ('+' :: cs) ds := by
    intro cs ds hs
    unfold Spells at hs
    obtain ⟨d, ds, -, hd, -⟩ := List.map_eq_cons_iff.mp hs.symm
    rw [toDigit_plus hr36] at hd
    cases hd
  constructor
  · intro h
    unfold fromStrRadix at h
    split at h
    · cases h
    · cases h
    · next cs hne =>
      obtain ⟨ds, hs, hvalue, hn⟩ := (readDigits_eq_some_iff hr hbound).mp h
      refine ⟨cs, ds, .inr rfl, ?_, hs, hvalue, hn⟩
      rintro rfl
      exact hne rfl
    · next c cs _ _ =>
      obtain ⟨ds, hs, hvalue, hn⟩ := (readDigits_eq_some_iff hr hbound).mp h
      exact ⟨c :: cs, ds, .inl rfl, List.cons_ne_nil c cs, hs, hvalue, hn⟩
  · rintro ⟨cs, ds, hs | hs, hne, hspells, hvalue, hn⟩
    · subst hs
      have hread := (readDigits_eq_some_iff hr hbound).mpr ⟨ds, hspells, hvalue, hn⟩
      unfold fromStrRadix
      split
      · exact absurd rfl hne
      · exact absurd hspells (hplus _ _)
      · exact absurd hspells (hplus _ _)
      · exact hread
    · subst hs
      have hread := (readDigits_eq_some_iff hr hbound).mpr ⟨ds, hspells, hvalue, hn⟩
      cases cs with
      | nil => exact absurd rfl hne
      | cons c cs => exact hread

/-- Formatting writes the digits it has read, without zeros in front. -/
theorem toDigits_valueFrom (hr : 1 < radix) {n : Nat} (hn : 0 < n) {ds : List Nat}
    (hds : ∀ d ∈ ds, d < radix) :
    Nat.toDigits radix (valueFrom radix n ds) = Nat.toDigits radix n ++ ds.map Nat.digitChar := by
  induction ds generalizing n with
  | nil => exact (List.append_nil _).symm
  | cons d ds ih =>
    have hd : d < radix := hds d (List.mem_cons_self ..)
    have hpos : 0 < n * radix + d := Nat.add_pos_left (Nat.mul_pos hn (by omega)) d
    have hsnoc : Nat.toDigits radix (n * radix + d) = Nat.toDigits radix n ++ [d.digitChar] := by
      rw [Nat.mul_comm, ← Nat.toDigits_append_toDigits hr hn hd, Nat.toDigits_of_lt_base hd]
    calc Nat.toDigits radix (valueFrom radix n (d :: ds))
        = Nat.toDigits radix (valueFrom radix (n * radix + d) ds) := rfl
      _ = Nat.toDigits radix (n * radix + d) ++ ds.map Nat.digitChar :=
          ih hpos fun d' hd' ↦ hds d' (List.mem_cons_of_mem _ hd')
      _ = Nat.toDigits radix n ++ (d :: ds).map Nat.digitChar := by rw [hsnoc]; simp

/-- Leading zeros have no value. -/
theorem valueFrom_zero_cons (ds : List Nat) :
    valueFrom radix 0 (0 :: ds) = valueFrom radix 0 ds := by
  simp [valueFrom]

/-- The digits that formatting writes spell its number. -/
theorem exists_spells_toDigits (hr : 1 < radix) (hr16 : radix ≤ 16) (n : Nat) :
    ∃ ds, Spells radix (Nat.toDigits radix n) ds ∧ valueFrom radix 0 ds = n := by
  induction n using Nat.strongRecOn with
  | ind n ih =>
    by_cases hn : n < radix
    · refine ⟨[n], ?_, by simp [valueFrom]⟩
      rw [Spells, Nat.toDigits_of_lt_base hn, List.map_singleton, toDigit_digitChar hr16 hn]
      rfl
    · have hle : radix ≤ n := Nat.le_of_not_lt hn
      have hmod : n % radix < radix := Nat.mod_lt n (by omega)
      obtain ⟨ds, hs, hvalue⟩ := ih (n / radix) (Nat.div_lt_self (by omega) hr)
      refine ⟨ds ++ [n % radix], ?_, ?_⟩
      · unfold Spells at hs ⊢
        rw [Nat.toDigits_of_base_le hr hle, List.map_append, List.map_append, hs,
          List.map_singleton, toDigit_digitChar hr16 hmod]
        rfl
      · have hsplit : valueFrom radix 0 (ds ++ [n % radix]) =
            valueFrom radix 0 ds * radix + n % radix := by
          simp [valueFrom]
        rw [hsplit, hvalue, Nat.mul_comm]
        exact Nat.div_add_mod n radix

/-- What formatting writes is read back. -/
theorem fromStrRadix_toDigits (hr : 1 < radix) (hr16 : radix ≤ 16) {n : Nat} (hn : n < bound) :
    fromStrRadix radix bound (Nat.toDigits radix n) = some n := by
  obtain ⟨ds, hs, hvalue⟩ := exists_spells_toDigits hr hr16 n
  exact (fromStrRadix_eq_some_iff (by omega) (by omega) (by omega)).mpr
    ⟨_, ds, .inl rfl, Nat.toDigits_ne_nil, hs, hvalue, hn⟩

/-- So different numbers are written differently. -/
theorem toDigits_injective (hr : 1 < radix) (hr16 : radix ≤ 16) {m n : Nat}
    (h : Nat.toDigits radix m = Nat.toDigits radix n) : m = n := by
  have hm : fromStrRadix radix (m + n + 1) (Nat.toDigits radix m) = some m :=
    fromStrRadix_toDigits hr hr16 (by omega)
  have hn : fromStrRadix radix (m + n + 1) (Nat.toDigits radix n) = some n :=
    fromStrRadix_toDigits hr hr16 (by omega)
  rw [h, hn] at hm
  exact (Option.some.inj hm).symm

end

end ExtQuiche.Base
