import Ecotiter.StatusBroadcast

/-!
# When the status is broadcast

The main loop counts its turns in 32 bits, and `scheduler.cpp` compares the count with that of the
last broadcast. The difference is taken in 32 bits too, so that the broadcasts keep their distance
when the count wraps around.
-/

namespace Ecotiter
open BoundedOutput JsonText

structure TickScheduler where
  gTick : UInt32 := 0
  lastBroadcastTick : UInt32 := 0

namespace TickScheduler

def broadcastInterval : UInt32 := 30

def tick (s : TickScheduler) : TickScheduler := { s with gTick := s.gTick + 1 }

def shouldBroadcast (s : TickScheduler) : Bool × TickScheduler :=
  if broadcastInterval ≤ s.gTick - s.lastBroadcastTick then
    (true, { s with lastBroadcastTick := s.gTick })
  else (false, s)

/-- The scheduler after some turns of the main loop; the counters have wrapped around. -/
def after (n : ℕ) : TickScheduler := ⟨.ofNat n, .ofNat (n - n % 30)⟩

theorem elapsed_after (n : ℕ) :
    (after n).tick.gTick - (after n).tick.lastBroadcastTick = .ofNat (n % 30 + 1) := by
  have hsplit : n + 1 = (n - n % 30) + (n % 30 + 1) := by omega
  have hnow : (after n).tick.gTick = .ofNat (n - n % 30) + .ofNat (n % 30 + 1) := by
    rw [← UInt32.ofNat_add, ← hsplit, UInt32.ofNat_add]
    rfl
  rw [hnow, UInt32.add_comm]
  exact UInt32.add_sub_cancel _ _

/-- A turn asks for a broadcast when its number is a multiple of 30. -/
theorem shouldBroadcast_after (n : ℕ) :
    (after n).tick.shouldBroadcast = (decide (30 ∣ n + 1), after (n + 1)) := by
  have hlt : n % 30 + 1 < UInt32.size := by
    have hmod := Nat.mod_lt n (show 0 < 30 by norm_num)
    have hsize : UInt32.size = 4294967296 := rfl
    omega
  have hiff : broadcastInterval ≤ .ofNat (n % 30 + 1) ↔ 30 ∣ n + 1 := by
    have hthirty : broadcastInterval.toNat = 30 := rfl
    rw [UInt32.le_iff_toNat_le, UInt32.toNat_ofNat_of_lt' hlt, hthirty]
    omega
  have hnow : (after n).tick.gTick = .ofNat (n + 1) := (UInt32.ofNat_add n 1).symm
  rw [shouldBroadcast, elapsed_after]
  by_cases h : 30 ∣ n + 1
  · have hzero : (n + 1) % 30 = 0 := Nat.mod_eq_zero_of_dvd h
    rw [if_pos (hiff.mpr h), decide_eq_true h, hnow, after, hzero]
    rfl
  · have hkept : n - n % 30 = n + 1 - (n + 1) % 30 := by omega
    rw [if_neg (hiff.not.mpr h), decide_eq_false h]
    show (false, (⟨(after n).tick.gTick, .ofNat (n - n % 30)⟩ : TickScheduler)) = _
    rw [hnow, hkept]
    rfl

end TickScheduler

/-! ## The broadcasts -/

/-- The events of turns of the main loop. -/
def broadcasts : TickScheduler → List Readings → List BroadcastEvent
  | _, [] => []
  | s, r :: turns =>
    match s.tick.shouldBroadcast with
    | (true, s) => r.event s.gTick :: broadcasts s turns
    | (false, s) => broadcasts s turns

/-- An event is broadcast unless its text is empty. -/
def serialLine (evt : BroadcastEvent) : Option (List UInt8) :=
  let sv := evt.serializeBroadcastCompact
  if sv = [] then none else some (sv ++ [Ble.newline])

def webText (evt : BroadcastEvent) : Option (List UInt8) :=
  let sv := evt.serializeBroadcastExtended
  if sv = [] then none else some sv

/-- The events of the turns whose number is a multiple of 30. -/
def scheduled (turns : List Readings) (n : ℕ) : List BroadcastEvent :=
  ((turns.zipIdx n).filter fun turn => 30 ∣ turn.2).map fun turn => turn.1.event (.ofNat turn.2)

theorem broadcasts_after (turns : List Readings) (n : ℕ) :
    broadcasts (.after n) turns = scheduled turns (n + 1) := by
  induction turns generalizing n with
  | nil => rfl
  | cons r turns ih =>
    rw [broadcasts, TickScheduler.shouldBroadcast_after, scheduled, List.zipIdx_cons]
    have hlater := ih (n + 1)
    rw [scheduled] at hlater
    by_cases h : 30 ∣ n + 1
    · rw [decide_eq_true h, List.filter_cons, if_pos (decide_eq_true h), List.map_cons, ← hlater]
      rfl
    · rw [decide_eq_false h, List.filter_cons, if_neg (by simpa using h), ← hlater]

/-! ## The texts that are sent -/

theorem utf8_object_ne_nil (ms : List (List Piece × Value)) :
    utf8 (Written.object ms).text ≠ [] := by
  intro h
  have hhead : (utf8 (Written.object ms).text).head? = some 0x7B := by cases ms <;> rfl
  rw [h] at hhead
  cases hhead

theorem serialLine_eq {evt : BroadcastEvent} (h : evt.Printable) :
    serialLine evt = some (utf8 (Written.object evt.compactMembers).text ++ [Ble.newline]) := by
  rw [serialLine, h.compact_eq]
  exact if_neg (utf8_object_ne_nil _)

theorem webText_eq {evt : BroadcastEvent} (h : evt.Printable) :
    webText evt = some (utf8 (Written.object evt.extendedMembers).text) := by
  rw [webText, h.extended_eq]
  exact if_neg (utf8_object_ne_nil _)

theorem printable_of_mem_scheduled {turns : List Readings} (h : ∀ r ∈ turns, r.HasVolume) {n : ℕ}
    {evt : BroadcastEvent} (hevt : evt ∈ scheduled turns n) : evt.Printable := by
  obtain ⟨turn, hturn, rfl⟩ := List.mem_map.mp hevt
  have hmem : turn.1 ∈ turns := List.fst_mem_of_mem_zipIdx (List.mem_filter.mp hturn).1
  exact (h turn.1 hmem).printable _

end Ecotiter
