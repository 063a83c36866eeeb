import Mathlib
import Intcode.Fault

/-!
Operations that have a condition: a difference of sizes, a sum of them, a remainder, a place in an
array. Where the condition fails there is no result but a hazard, which nothing catches. Faults are
results like any other, so whatever can fail in both ways has a fault inside and a hazard outside.
-/
namespace Intcode

inductive Hazard where
  /-- A difference of sizes that is below zero. -/
  | underflow
  /-- A sum of sizes that is too large for a size. -/
  | overflow
  /-- An array does not have the place. -/
  | outside
  | zeroModulus
  /-- What was thought to be impossible has come about. -/
  | unreachable
  deriving DecidableEq, Repr

abbrev Risky := Except Hazard

namespace Risky

variable {α β : Type}

def sub (size other : Nat) : Risky Nat :=
  if other ≤ size then .ok (size - other) else .error .underflow

/-- Sizes have 64 bits. -/
def add (size other : Nat) : Risky Nat :=
  if size + other < 2 ^ 64 then .ok (size + other) else .error .overflow

def mod (size modulus : Nat) : Risky Nat :=
  if modulus = 0 then .error .zeroModulus else .ok (size % modulus)

def get (array : Array α) (place : Nat) : Risky α :=
  if inside : place < array.size then .ok array[place] else .error .outside

def put (array : Array α) (place : Nat) (value : α) : Risky (Array α) :=
  if inside : place < array.size then .ok (array.set place value) else .error .outside

/-- The values in the first places, as many as are asked for. -/
def front (array : Array α) (count : Nat) : Risky (Array α) :=
  if count ≤ array.size then .ok (array.take count) else .error .outside

@[simp]
theorem ok_bind (value : α) (rest : α → Risky β) : (.ok value : Risky α) >>= rest = rest value :=
  rfl

theorem sub_of_le {size other : Nat} (h : other ≤ size) : sub size other = .ok (size - other) :=
  if_pos h

theorem add_of_lt {size other : Nat} (h : size + other < 2 ^ 64) :
    add size other = .ok (size + other) := if_pos h

theorem mod_of_pos {modulus : Nat} (h : 0 < modulus) (size : Nat) :
    mod size modulus = .ok (size % modulus) := if_neg (Nat.pos_iff_ne_zero.mp h)

theorem get_of_lt {array : Array α} {place : Nat} (h : place < array.size) :
    get array place = .ok array[place] := dif_pos h

theorem put_of_lt {array : Array α} {place : Nat} (h : place < array.size) (value : α) :
    put array place value = .ok (array.set place value) := dif_pos h

theorem front_of_le {array : Array α} {count : Nat} (h : count ≤ array.size) :
    front array count = .ok (array.take count) := if_pos h

end Risky

/-- Something that comes to a fault or to a value, or to a hazard. -/
abbrev Attempt := ExceptT Fault Risky

namespace Attempt

variable {α β : Type}

def risk (risky : Risky α) : Attempt α := ExceptT.lift risky

/-- No hazard comes with this. -/
def safe (result : Except Fault α) : Attempt α := ExceptT.mk (.ok result)

theorem run_safe (result : Except Fault α) : (safe result).run = .ok result := rfl

theorem pure_eq_safe (value : α) : (pure value : Attempt α) = safe (.ok value) := rfl

@[simp]
theorem risk_ok_bind (value : α) (rest : α → Attempt β) : risk (.ok value) >>= rest = rest value :=
  rfl

@[simp]
theorem safe_bind (result : Except Fault α) (rest : α → Except Fault β) :
    (safe result >>= fun value => safe (rest value)) = safe (result >>= rest) := by
  cases result <;> rfl

end Attempt

end Intcode
