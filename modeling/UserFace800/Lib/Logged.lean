import Mathlib.Data.List.Basic
import Mathlib.Data.BitVec
/-!
# Computations that log what they do

`Logged ω α` is a value with the operations performed on the way to it, in
order. `Logs p x` says every logged operation satisfies `p`; `Logs.bind` splits
it along a computation. With machine arithmetic that logs its operands this
states, about one definition, both what it computes and that nothing wraps.
-/

namespace UserFace800.Lib

/-- A value, and what was logged on the way to it. -/
structure Logged (ω α : Type) where
  val : α
  log : List ω

namespace Logged

variable {ω α β : Type}

instance : Monad (Logged ω) where
  pure a := ⟨a, []⟩
  bind x f := ⟨(f x.val).val, x.log ++ (f x.val).log⟩

/-- The value `a`, with `o` logged. -/
def note (o : ω) (a : α) : Logged ω α := ⟨a, [o]⟩

@[simp] theorem val_pure (a : α) : (pure a : Logged ω α).val = a := rfl
@[simp] theorem val_bind (x : Logged ω α) (f : α → Logged ω β) : (x >>= f).val = (f x.val).val := rfl
@[simp] theorem log_bind (x : Logged ω α) (f : α → Logged ω β) : (x >>= f).log = x.log ++ (f x.val).log := rfl
@[simp] theorem val_note (o : ω) (a : α) : (note o a).val = a := rfl
@[simp] theorem log_note (o : ω) (a : α) : (note o a).log = [o] := rfl

/-- Everything logged satisfies `p`. -/
def Logs (p : ω → Prop) (x : Logged ω α) : Prop := ∀ o ∈ x.log, p o

variable {p : ω → Prop}

@[simp] theorem logs_pure (a : α) : Logs p (pure a : Logged ω α) := by
  intro o h
  cases h

@[simp] theorem logs_note (o : ω) (a : α) : Logs p (note o a) ↔ p o := by
  unfold Logs note
  simp

theorem Logs.bind {x : Logged ω α} {f : α → Logged ω β} (hx : Logs p x) (hf : Logs p (f x.val)) : Logs p (x >>= f) := by
  intro o h
  rcases List.mem_append.1 h with h | h
  · exact hx o h
  · exact hf o h

end Logged

end UserFace800.Lib
