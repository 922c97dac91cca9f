import Mathlib.Algebra.Group.Nat.Defs
import Mathlib.Logic.Function.Basic
import Ecotiter.FifoMap

/-!
# The list of WiFi networks

`WifiManager::saveCredentials` and the reads and writes of `nvs.cpp` it rests on. A call writes each
key at most once, so the writes that take effect are a set of keys. A read that fails and a key that
is missing are one to every caller.
-/

namespace Ecotiter
open FifoMap

/-- The characters of a string, without the terminator. -/
abbrev CString := List UInt8

/-- An SSID and its password. -/
abbrev Network := CString × CString

/-- The keys of the namespace `wifi`. -/
inductive WifiKey
  | count | ssid (slot : ℕ) | password (slot : ℕ)
  deriving DecidableEq

structure WifiNvs where
  count : Option ℕ := none
  str : WifiKey → Option CString := fun _ => none

namespace WifiNvs

def maxNetworks : ℕ := 5

/-- `wifiReadStr` into a buffer of the given size. -/
def wifiReadStr (nvs : WifiNvs) (key : WifiKey) (bufSize : ℕ) : Option CString := do
  let value ← nvs.str key
  if value.length + 1 ≤ bufSize then some value else none

def wifiReadCount (nvs : WifiNvs) : ℕ := nvs.count.getD 0

def wifiWriteStr (takes : WifiKey → Bool) (key : WifiKey) (value : CString) (nvs : WifiNvs) :
    WifiNvs :=
  if takes key then { nvs with str := Function.update nvs.str key (some value) } else nvs

def wifiWriteCount (takes : WifiKey → Bool) (count : ℕ) (nvs : WifiNvs) : WifiNvs :=
  if takes .count then { nvs with count := some (count % 2 ^ 8) } else nvs

/-- The slot in which the loop over the saved networks finds an SSID. -/
def existingSlot (nvs : WifiNvs) (ssid : CString) : Option ℕ :=
  (List.range nvs.wifiReadCount).find? fun i => nvs.wifiReadStr (.ssid i) 64 = some ssid

/-- One of the two keys of a slot is moved down. -/
def shiftKey (takes : WifiKey → Bool) (src dst : WifiKey) (nvs : WifiNvs) : WifiNvs :=
  match nvs.wifiReadStr src 64 with
  | some buf => nvs.wifiWriteStr takes dst buf
  | none => nvs

/-- One turn of the eviction loop. -/
def shiftSlot (takes : WifiKey → Bool) (nvs : WifiNvs) (i : ℕ) : WifiNvs :=
  (nvs.shiftKey takes (.ssid i) (.ssid (i - 1))).shiftKey takes (.password i) (.password (i - 1))

def saveCredentials (takes : WifiKey → Bool) (ssid password : CString) (nvs : WifiNvs) : WifiNvs :=
  let count := nvs.wifiReadCount
  match nvs.existingSlot ssid with
  | some i => nvs.wifiWriteStr takes (.password i) password
  | none =>
    if count < maxNetworks then
      ((nvs.wifiWriteStr takes (.ssid count) ssid).wifiWriteStr takes (.password count)
        password).wifiWriteCount takes (count + 1)
    else
      let shifted := (List.range' 1 (maxNetworks - 1)).foldl (shiftSlot takes) nvs
      let last := maxNetworks - 1
      (shifted.wifiWriteStr takes (.ssid last) ssid).wifiWriteStr takes (.password last) password

/-- What `tryConnectSlot` reads in a slot. -/
def slot (nvs : WifiNvs) (i : ℕ) : Option Network := do
  let ssid ← nvs.wifiReadStr (.ssid i) 64
  let password ← nvs.wifiReadStr (.password i) 64
  return (ssid, password)

/-- The slots that are tried, in their order. -/
def slots (nvs : WifiNvs) : List (Option Network) := (List.range nvs.wifiReadCount).map nvs.slot

end WifiNvs

/-- An SSID and a password that fit. -/
def Network.Fits (n : Network) : Prop := n.1.length ≤ 31 ∧ n.2.length ≤ 63

instance (n : Network) : Decidable n.Fits :=
  inferInstanceAs (Decidable (n.1.length ≤ 31 ∧ n.2.length ≤ 63))

namespace WifiNvs

/-- The store holds a list of networks. -/
structure Holds (nvs : WifiNvs) (l : List Network) : Prop where
  count : nvs.wifiReadCount = l.length
  room : l.length ≤ maxNetworks
  distinct : (keys l).Nodup
  fits : ∀ n ∈ l, n.Fits
  ssid : ∀ i (h : i < l.length), nvs.str (.ssid i) = some l[i].1
  password : ∀ i (h : i < l.length), nvs.str (.password i) = some l[i].2

section
variable {nvs : WifiNvs} {l : List Network} {n : Network} {takes : WifiKey → Bool}
  {key k : WifiKey} {value : CString} {i : ℕ}

theorem wifiReadStr_of_fits (h : nvs.str key = some value) (hlen : value.length ≤ 63) :
    nvs.wifiReadStr key 64 = some value := by
  have hroom : value.length + 1 ≤ 64 := by omega
  rw [wifiReadStr, h, Option.bind_eq_bind, Option.bind_some, if_pos hroom]

@[simp] theorem wifiWriteStr_str : (nvs.wifiWriteStr takes key value).str k =
    if k = key ∧ takes key then some value else nvs.str k := by
  unfold wifiWriteStr
  by_cases htakes : takes key
  · by_cases hk : k = key
    · simp [htakes, hk]
    · simp [htakes, hk]
  · simp [htakes]

@[simp] theorem wifiWriteStr_count : (nvs.wifiWriteStr takes key value).count = nvs.count := by
  unfold wifiWriteStr
  split <;> rfl

@[simp] theorem wifiWriteCount_str {count : ℕ} :
    (nvs.wifiWriteCount takes count).str = nvs.str := by
  unfold wifiWriteCount
  split <;> rfl

theorem Holds.read_ssid (hl : nvs.Holds l) (hi : i < l.length) :
    nvs.wifiReadStr (.ssid i) 64 = some l[i].1 := by
  have hfits := (hl.fits l[i] (List.getElem_mem hi)).1
  exact wifiReadStr_of_fits (hl.ssid i hi) (by omega)

theorem Holds.read_password (hl : nvs.Holds l) (hi : i < l.length) :
    nvs.wifiReadStr (.password i) 64 = some l[i].2 :=
  wifiReadStr_of_fits (hl.password i hi) (hl.fits l[i] (List.getElem_mem hi)).2

theorem Holds.slot (hl : nvs.Holds l) (hi : i < l.length) : nvs.slot i = some l[i] := by
  simp [WifiNvs.slot, hl.read_ssid hi, hl.read_password hi]

theorem Holds.slots (hl : nvs.Holds l) : nvs.slots = l.map some := by
  refine List.ext_getElem ?_ fun i hi hi' => ?_
  · simp [WifiNvs.slots, hl.count]
  · rw [List.length_map] at hi'
    simp [WifiNvs.slots, hl.slot hi']

theorem Holds.existingSlot_none (hl : nvs.Holds l) (hn : n.1 ∉ keys l) :
    nvs.existingSlot n.1 = none := by
  refine List.find?_eq_none.mpr fun i hi => ?_
  rw [List.mem_range, hl.count] at hi
  rw [hl.read_ssid hi]
  intro hsame
  have heq : l[i].1 = n.1 := Option.some.inj (of_decide_eq_true hsame)
  exact hn (heq ▸ List.mem_map_of_mem (List.getElem_mem hi))

theorem Holds.existingSlot_some (hl : nvs.Holds l) (hn : n.1 ∈ keys l) :
    ∃ (i : ℕ) (hi : i < l.length), nvs.existingSlot n.1 = some i ∧ l[i].1 = n.1 := by
  obtain ⟨m, hm, hsame⟩ := List.mem_map.mp hn
  obtain ⟨j, hj, rfl⟩ := List.getElem_of_mem hm
  cases hfound : nvs.existingSlot n.1 with
  | none =>
    have hnot := List.find?_eq_none.mp hfound j (List.mem_range.mpr (hl.count ▸ hj))
    rw [hl.read_ssid hj] at hnot
    exact absurd (decide_eq_true (congrArg some hsame)) hnot
  | some i =>
    have hi := List.mem_of_find?_eq_some hfound
    rw [List.mem_range, hl.count] at hi
    have hread := List.find?_some hfound
    rw [hl.read_ssid hi] at hread
    exact ⟨i, hi, rfl, Option.some.inj (of_decide_eq_true hread)⟩

theorem shiftKey_of_some {src dst : WifiKey} (h : nvs.str src = some value)
    (hlen : value.length ≤ 63) : nvs.shiftKey takes src dst = nvs.wifiWriteStr takes dst value := by
  rw [shiftKey, wifiReadStr_of_fits h hlen]

/-- The loop of an eviction has moved the slots it has come to, as far as its writes take effect. -/
theorem Holds.shifted (hl : nvs.Holds l) (takes : WifiKey → Bool) (m : ℕ) (hm : m < l.length) :
    let shifted := (List.range' 1 m).foldl (shiftSlot takes) nvs
    (∀ j, shifted.str (.ssid j) =
      if j < m ∧ takes (.ssid j) then nvs.str (.ssid (j + 1)) else nvs.str (.ssid j)) ∧
    (∀ j, shifted.str (.password j) =
      if j < m ∧ takes (.password j) then nvs.str (.password (j + 1))
      else nvs.str (.password j)) ∧
    shifted.count = nvs.count := by
  induction m with
  | zero => simp
  | succ m ih =>
    obtain ⟨hssid, hpassword, hcount⟩ := ih (by omega)
    have hfits := hl.fits l[m + 1] (List.getElem_mem hm)
    rw [List.range'_1_concat, List.foldl_append, List.foldl_cons, List.foldl_nil]
    generalize (List.range' 1 m).foldl (shiftSlot takes) nvs = shifted at hssid hpassword hcount
    have hnext : shifted.str (.ssid (1 + m)) = some l[m + 1].1 := by
      rw [hssid, if_neg (by omega), Nat.add_comm, hl.ssid]
    have hnextPassword : (shifted.wifiWriteStr takes (.ssid (1 + m - 1)) l[m + 1].1).str
        (.password (1 + m)) = some l[m + 1].2 := by
      rw [wifiWriteStr_str, if_neg (by simp), hpassword, if_neg (by omega), Nat.add_comm,
        hl.password]
    have hlen : l[m + 1].1.length ≤ 63 := by
      have h := hfits.1
      omega
    rw [shiftSlot, shiftKey_of_some hnext hlen, shiftKey_of_some hnextPassword hfits.2,
      Nat.add_sub_cancel_left]
    refine ⟨fun j => ?_, fun j => ?_, ?_⟩
    · simp only [wifiWriteStr_str, reduceCtorEq, false_and, if_false, hssid, WifiKey.ssid.injEq]
      by_cases hj : j = m
      · subst hj
        simp [hl.ssid (j + 1) hm]
      · have hlt : j < m + 1 ↔ j < m := by omega
        simp [hj, hlt]
    · simp only [wifiWriteStr_str, reduceCtorEq, false_and, if_false, hpassword,
        WifiKey.password.injEq]
      by_cases hj : j = m
      · subst hj
        simp [hl.password (j + 1) hm]
      · have hlt : j < m + 1 ↔ j < m := by omega
        simp [hj, hlt]
    · simpa using hcount

/-- The slots move down by one. -/
theorem next_getElem {j : ℕ} (h : j + 1 < l.length) (h' : j < (l.tail ++ [n]).length) :
    (l.tail ++ [n])[j] = l[j + 1] := by
  rw [List.getElem_append_left (by rw [List.length_tail]; omega), List.getElem_tail]

theorem next_getElem_last {j : ℕ} (h : l.length ≤ j + 1) (h' : j < (l.tail ++ [n]).length) :
    (l.tail ++ [n])[j] = n := by
  rw [List.getElem_append_right (by rw [List.length_tail]; omega)]
  exact List.getElem_singleton _

/-- What a slot holds when its value was moved from the next one, the last from the new network. -/
theorem moved_value {field : Network → CString} {old : ℕ → Option CString} {t : ℕ → Bool}
    (hold : ∀ i (h : i < l.length), old i = some (field l[i])) {m j : ℕ} (hm : l.length = m + 1)
    (hj : j < l.length) (hj' : j < (l.tail ++ [n]).length) :
    (if j = m ∧ t j then some (field n) else if j < m ∧ t j then old (j + 1) else old j) =
      some (if t j then field (l.tail ++ [n])[j] else field l[j]) := by
  by_cases ht : t j
  · obtain hlt | rfl : j < m ∨ j = m := by omega
    · have hnext := next_getElem (n := n) (by omega : j + 1 < l.length) hj'
      rw [if_neg (by omega), if_pos ⟨hlt, ht⟩, if_pos ht, hnext, hold (j + 1) (by omega)]
    · rw [if_pos ⟨rfl, ht⟩, if_pos ht, next_getElem_last (by omega) hj']
  · simp [ht, hold j hj]

/-- What an eviction leaves under the keys of the slots. -/
theorem Holds.evicted (hl : nvs.Holds l) (hfull : l.length = maxNetworks) (hn : n.1 ∉ keys l)
    (takes : WifiKey → Bool) :
    let next := l.tail ++ [n]
    let saved := nvs.saveCredentials takes n.1 n.2
    (∀ j (h : j < l.length) (h' : j < next.length), saved.str (.ssid j) =
      some (if takes (.ssid j) then next[j].1 else l[j].1)) ∧
    (∀ j (h : j < l.length) (h' : j < next.length), saved.str (.password j) =
      some (if takes (.password j) then next[j].2 else l[j].2)) ∧
    saved.wifiReadCount = l.length := by
  have hlast : maxNetworks - 1 < l.length := by
    rw [hfull]
    decide
  have hlen : l.length = maxNetworks - 1 + 1 := hfull
  obtain ⟨hssid, hpassword, hcount⟩ := hl.shifted takes (maxNetworks - 1) hlast
  have hroom : ¬ nvs.wifiReadCount < maxNetworks := by
    rw [hl.count, hfull]
    omega
  have hsaved : nvs.saveCredentials takes n.1 n.2 =
      (((List.range' 1 (maxNetworks - 1)).foldl (shiftSlot takes) nvs).wifiWriteStr takes
        (.ssid (maxNetworks - 1)) n.1).wifiWriteStr takes (.password (maxNetworks - 1)) n.2 := by
    unfold saveCredentials
    rw [hl.existingSlot_none hn]
    exact if_neg hroom
  generalize (List.range' 1 (maxNetworks - 1)).foldl (shiftSlot takes) nvs = shifted at *
  refine ⟨fun j h h' => ?_, fun j h h' => ?_, ?_⟩
  · rw [hsaved, ← moved_value (t := fun j => takes (.ssid j)) hl.ssid hlen h h']
    simp only [wifiWriteStr_str, reduceCtorEq, false_and, if_false, hssid, WifiKey.ssid.injEq]
    by_cases hj : j = maxNetworks - 1
    · simp [hj]
    · simp [hj]
  · rw [hsaved, ← moved_value (t := fun j => takes (.password j)) hl.password hlen h h']
    simp only [wifiWriteStr_str, hpassword, WifiKey.password.injEq]
    by_cases hj : j = maxNetworks - 1
    · simp [hj]
    · simp [hj]
  · rw [hsaved]
    simp only [wifiReadCount, wifiWriteStr_count, hcount]
    exact hl.count

/-- A known network only has its password written. -/
theorem Holds.updated (hl : nvs.Holds l) (hn : n.1 ∈ keys l) (takes : WifiKey → Bool) :
    ∃ (i : ℕ) (h : i < l.length), l[i].1 = n.1 ∧
      nvs.saveCredentials takes n.1 n.2 = nvs.wifiWriteStr takes (.password i) n.2 := by
  obtain ⟨i, hi, hfound, hsame⟩ := hl.existingSlot_some hn
  refine ⟨i, hi, hsame, ?_⟩
  unfold saveCredentials
  rw [hfound]

/-- A new network goes to the first free slot. -/
theorem Holds.appended (hl : nvs.Holds l) (hroom : l.length < maxNetworks) (hn : n.1 ∉ keys l)
    (takes : WifiKey → Bool) : nvs.saveCredentials takes n.1 n.2 =
      ((nvs.wifiWriteStr takes (.ssid l.length) n.1).wifiWriteStr takes (.password l.length)
        n.2).wifiWriteCount takes (l.length + 1) := by
  unfold saveCredentials
  rw [hl.existingSlot_none hn, hl.count]
  exact if_pos hroom

/-- A call whose writes all take effect. -/
def save (nvs : WifiNvs) (n : Network) : WifiNvs := nvs.saveCredentials (fun _ => true) n.1 n.2

/-- What the keys of the slots hold after it. -/
theorem Holds.values_save (hl : nvs.Holds l) :
    (nvs.save n).wifiReadCount = (insert maxNetworks l n).length ∧
    (∀ i (h : i < (insert maxNetworks l n).length),
      (nvs.save n).str (.ssid i) = some (insert maxNetworks l n)[i].1) ∧
    (∀ i (h : i < (insert maxNetworks l n).length),
      (nvs.save n).str (.password i) = some (insert maxNetworks l n)[i].2) := by
  by_cases hn : n.1 ∈ keys l
  · obtain ⟨j, hj, hsame, hsaved⟩ := hl.updated hn fun _ => true
    rw [save, hsaved]
    simp only [insert_of_mem hn, List.length_map, List.getElem_map, wifiReadCount,
      wifiWriteStr_count, wifiWriteStr_str, reduceCtorEq, if_false, WifiKey.password.injEq,
      and_true]
    refine ⟨hl.count, fun i hi => ?_, fun i hi => ?_⟩
    · by_cases hin : l[i].1 = n.1
      · rw [if_pos hin, hl.ssid i hi, hin]
      · rw [if_neg hin, hl.ssid i hi]
    · have hij : i = j ↔ l[i].1 = n.1 := by
        constructor
        · rintro rfl
          exact hsame
        · intro hin
          exact index_of_key hl.distinct hi hj (hin.trans hsame.symm)
      by_cases hin : l[i].1 = n.1
      · rw [if_pos (hij.mpr hin), if_pos hin]
      · rw [if_neg (hij.not.mpr hin), if_neg hin, hl.password i hi]
  · by_cases hroom : l.length < maxNetworks
    · rw [save, hl.appended hroom hn]
      simp only [insert_of_room hn hroom, List.length_append, List.length_singleton,
        wifiWriteCount_str, wifiWriteStr_str, reduceCtorEq, if_false, WifiKey.ssid.injEq,
        WifiKey.password.injEq, and_true]
      refine ⟨?_, fun i hi => ?_, fun i hi => ?_⟩
      · have hsmall : (l.length + 1) % 2 ^ 8 = l.length + 1 := by
          have hmax : maxNetworks = 5 := rfl
          omega
        simp only [wifiReadCount, wifiWriteCount, if_true, hsmall, Option.getD_some]
      · by_cases hi' : i = l.length
        · simp [hi']
        · have hlt : i < l.length := by omega
          rw [if_neg hi', hl.ssid i hlt, List.getElem_append_left hlt]
      · by_cases hi' : i = l.length
        · simp [hi']
        · have hlt : i < l.length := by omega
          rw [if_neg hi', hl.password i hlt, List.getElem_append_left hlt]
    · have hfull : l.length = maxNetworks := by
        have h := hl.room
        omega
      obtain ⟨hssid, hpassword, hcount⟩ := hl.evicted hfull hn fun _ => true
      have hlen : (l.tail ++ [n]).length = l.length := by
        rw [List.length_append, List.length_tail, List.length_singleton, hfull]
        rfl
      simp only [insert_of_full hn hroom]
      refine ⟨hcount.trans hlen.symm, fun i hi => ?_, fun i hi => ?_⟩
      · exact hssid i (hlen ▸ hi) hi
      · exact hpassword i (hlen ▸ hi) hi

theorem Holds.save (hl : nvs.Holds l) (hn : n.Fits) :
    (nvs.save n).Holds (insert maxNetworks l n) := by
  obtain ⟨hcount, hssid, hpassword⟩ := hl.values_save (n := n)
  have hroom : (insert maxNetworks l n).length ≤ maxNetworks :=
    length_insert (by decide) hl.room
  refine ⟨hcount, hroom, nodup_insert hl.distinct, fun m hm => ?_, hssid, hpassword⟩
  obtain rfl | ⟨hold, -⟩ := mem_insert hm
  · exact hn
  · exact hl.fits m hold

end

/-- The store after a history of calls whose writes all take effect, from an empty store. -/
def store (h : List Network) : WifiNvs := h.foldl save {}

/-- The SSIDs in the slots. -/
def ssids (nvs : WifiNvs) : List CString := nvs.slots.filterMap fun n => n.map Prod.fst

theorem store_holds {h : List Network} (hfits : ∀ n ∈ h, n.Fits) :
    (store h).Holds (replay maxNetworks h) := by
  induction h using List.reverseRecOn with
  | nil => exact ⟨rfl, Nat.zero_le _, .nil, nofun, nofun, nofun⟩
  | append_singleton h n ih =>
    have hbefore := ih fun m hm => hfits m (List.mem_append_left _ hm)
    have hn := hfits n (List.mem_append_right _ (List.mem_singleton_self n))
    rw [replay_append_singleton, store, List.foldl_append]
    exact hbefore.save hn

theorem ssids_store {h : List Network} (hfits : ∀ n ∈ h, n.Fits) :
    (store h).ssids = replayKeys maxNetworks h := by
  rw [ssids, (store_holds hfits).slots, List.filterMap_map]
  exact List.filterMap_eq_map ▸ rfl

/-- The list of networks after a history of calls is what the calls ask for. -/
structure KeepsNetworks (h : List Network) : Prop where
  room : (store h).wifiReadCount ≤ maxNetworks
  readable : ∀ n ∈ (store h).slots, n.isSome
  distinct : (store h).ssids.Nodup
  latest : ∀ n, some n ∈ (store h).slots → h.reverse.find? (fun m => m.1 = n.1) = some n
  ordered : ∃ time : CString → ℕ, (store h).ssids.Pairwise (fun k k' => time k < time k') ∧
    ∀ k ∈ (store h).ssids, InsertedAt (fun h => (store h).ssids) h k (time k)
  evicts : ∀ n : Network, n.Fits → (store h).slots.length = maxNetworks → n.1 ∉ (store h).ssids →
    (store (h ++ [n])).slots = (store h).slots.tail ++ [some n]

end WifiNvs

end Ecotiter
