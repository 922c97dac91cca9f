import Mathlib.Data.List.TakeDrop
import Mathlib.Tactic.Common

/-!
# Output into an array

`snprintf` into an array behind an offset, the offset moved on by the length of the whole text, and
bytes copied to the offset. While the output fits, the array begins with it.
-/

namespace BoundedOutput

/-- The bytes of a text. -/
def utf8 (t : List Char) : List UInt8 := t.flatMap String.utf8EncodeChar

theorem utf8_append (t s : List Char) : utf8 (t ++ s) = utf8 t ++ utf8 s := List.flatMap_append

/-- An array, the offset of the next output, and whether every output so far stayed inside. -/
structure Output where
  mem : List UInt8
  off : ℕ := 0
  inside : Bool := true
  deriving DecidableEq

namespace Output

/-- Bytes over the ones that stand at an offset. -/
def overwrite (mem : List UInt8) (off : ℕ) (s : List UInt8) : List UInt8 :=
  mem.take off ++ s ++ mem.drop (off + s.length)

/-- What fits is stored, with a terminating zero; the result counts what did not fit. -/
def snprintf (s : List UInt8) (o : Output) : Output where
  mem :=
    if o.off < o.mem.length
    then overwrite o.mem o.off (s.take (o.mem.length - o.off - 1) ++ [0])
    else o.mem
  off := o.off + s.length
  inside := o.inside && o.off ≤ o.mem.length

/-- `memcpy` to the offset. -/
def copy (s : List UInt8) (o : Output) : Output where
  mem := overwrite o.mem o.off s
  off := o.off + s.length
  inside := o.inside && o.off + s.length ≤ o.mem.length

/-- A zero at the offset, if there is room for it. -/
def terminate (o : Output) : Output :=
  if o.off < o.mem.length then { o with mem := overwrite o.mem o.off [0] } else o

/-- The bytes in front of the offset. -/
def text (o : Output) : List UInt8 := o.mem.take o.off

/-- The string that begins the array. -/
def string (o : Output) : List UInt8 := o.mem.takeWhile (· ≠ 0)

/-- Everything stayed inside, and the array of the given size begins with the bytes. -/
structure Holds (o : Output) (size : ℕ) (t : List UInt8) : Prop where
  size : o.mem.length = size
  inside : o.inside = true
  off : o.off = t.length
  text : o.text = t

theorem overwrite_length {mem s : List UInt8} {off : ℕ} (h : off + s.length ≤ mem.length) :
    (overwrite mem off s).length = mem.length := by
  simp only [overwrite, List.length_append, List.length_take, List.length_drop]
  omega

theorem take_overwrite {mem s : List UInt8} {off k : ℕ} (hoff : off ≤ mem.length)
    (hk : k ≤ s.length) : (overwrite mem off s).take (off + k) = mem.take off ++ s.take k := by
  have hlength : (mem.take off).length = off := List.length_take_of_le hoff
  rw [overwrite, List.append_assoc, List.take_append, hlength, List.take_of_length_le (by omega),
    Nat.add_sub_cancel_left, List.take_append_of_le_length hk]

variable {o : Output} {size : ℕ} {t s : List UInt8}

theorem holds_empty {mem : List UInt8} (h : mem.length = size) :
    ({ mem } : Output).Holds size [] := ⟨h, rfl, rfl, rfl⟩

namespace Holds

theorem snprintf_mem (h : o.Holds size t) (hfit : t.length + s.length < size) :
    (o.snprintf s).mem = overwrite o.mem o.off (s ++ [0]) := by
  have hsize := h.size
  have hoff := h.off
  have hroom : o.off < o.mem.length := by omega
  have hall : s.take (o.mem.length - o.off - 1) = s := List.take_of_length_le (by omega)
  rw [Output.snprintf, if_pos hroom, hall]

theorem snprintf (h : o.Holds size t) (hfit : t.length + s.length < size) :
    (o.snprintf s).Holds size (t ++ s) := by
  have hsize := h.size
  have hoff := h.off
  have htext : o.mem.take o.off = t := h.text
  have hroom : o.off < o.mem.length := by omega
  have hmem := h.snprintf_mem hfit
  refine ⟨?_, ?_, ?_, ?_⟩
  · rw [hmem, overwrite_length, hsize]
    rw [List.length_append, List.length_singleton]
    omega
  · simp [Output.snprintf, h.inside, (Nat.le_of_lt hroom)]
  · simp [Output.snprintf, hoff]
  · have htake := take_overwrite (s := s ++ [0]) (k := s.length) (Nat.le_of_lt hroom) (by simp)
    rw [List.take_left] at htake
    rw [Output.text, hmem]
    change (overwrite o.mem o.off (s ++ [0])).take (o.off + s.length) = t ++ s
    rw [htake, htext]

/-- What was printed without a zero in it is the string the array begins with. -/
theorem snprintf_string (h : o.Holds size t) (hfit : t.length + s.length < size)
    (hzero : 0 ∉ t ++ s) : (o.snprintf s).string = t ++ s := by
  have hsize := h.size
  have hoff := h.off
  have htext : o.mem.take o.off = t := h.text
  have hall : ∀ b ∈ t ++ s, decide (b ≠ 0) = true := by
    intro b hb
    exact decide_eq_true fun hzero' => hzero (hzero' ▸ hb)
  rw [string, h.snprintf_mem hfit, overwrite, htext, ← List.append_assoc t s,
    List.append_assoc (t ++ s), List.takeWhile_append_of_pos hall]
  simp

theorem copy (h : o.Holds size t) (hfit : t.length + s.length ≤ size) :
    (o.copy s).Holds size (t ++ s) := by
  have hsize := h.size
  have hoff := h.off
  have htext : o.mem.take o.off = t := h.text
  refine ⟨?_, ?_, ?_, ?_⟩
  · rw [← hsize]
    exact overwrite_length (by omega)
  · simp only [Output.copy, h.inside, Bool.true_and, decide_eq_true_eq]
    omega
  · simp [Output.copy, hoff]
  · have htake : (overwrite o.mem o.off s).take (o.off + s.length) =
        o.mem.take o.off ++ s.take s.length := take_overwrite (by omega) (Nat.le_refl _)
    rw [htext, List.take_length] at htake
    exact htake

theorem terminate (h : o.Holds size t) : o.terminate.Holds size t := by
  have hoff := h.off
  have htext : o.mem.take o.off = t := h.text
  unfold Output.terminate
  split
  · next hroom =>
    have htake := take_overwrite (s := [0]) (k := 0) (Nat.le_of_lt hroom) (Nat.zero_le 1)
    refine ⟨(overwrite_length hroom).trans h.size, h.inside, hoff, ?_⟩
    rw [List.take_zero, List.append_nil, Nat.add_zero, htext] at htake
    exact htake
  · exact h

end Holds
end Output
end BoundedOutput
