import Ecotiter.BoundedOutput
import Ecotiter.QuotedText
import Ecotiter.WifiCredentials

/-!
# The fields of the WiFi form

`findJsonField` of `json_utils.hpp`, by which `captive_wifi_connect_handler` reads the network out of
the text that the page sends. The name of a field is searched in the whole text, also in the values.
-/

namespace Ecotiter
open QuotedText BoundedOutput

def CString.strstr (s needle : CString) : Option CString := search needle s

def CString.skipSpaces (s : CString) : CString := s.dropWhile (· = 32)

/-- The characters in front of the one that `strchr` finds. -/
def CString.upTo (c : UInt8) (s : CString) : Option CString :=
  if c ∈ s then some (s.takeWhile (· ≠ c)) else none

/-- The value that stands behind the name of a field. -/
def valueBehind (pos : CString) : Option CString :=
  match CString.skipSpaces pos with
  | 58 :: pos =>
    match CString.skipSpaces pos with
    | 34 :: pos => CString.upTo 34 pos
    | _ => none
  | _ => none

/-- The copy that is returned; `malloc` has memory for it. -/
def findJsonField (json field : CString) : Option CString := do
  let pos ← json.strstr field
  valueBehind (pos.drop field.length)

/-- Neither a quote nor a backslash nor a control character. -/
def IsFormChar (c : UInt8) : Prop := c ≠ 34 ∧ c ≠ 92 ∧ 32 ≤ c

instance (c : UInt8) : Decidable (IsFormChar c) := inferInstanceAs (Decidable (_ ∧ _))

/-- A member of an object, with spaces around the colon. -/
structure FormField where
  name : CString
  value : CString
  spacesBefore : ℕ := 0
  spacesAfter : ℕ := 0
  name_isChar : ∀ c ∈ name, c ≠ 34 ∧ c ≠ 44 ∧ c ≠ 58
  value_isChar : ∀ c ∈ value, IsFormChar c

namespace FormField

/-- What stands between the name and the value. -/
def colon (f : FormField) : CString :=
  List.replicate f.spacesBefore 32 ++ 58 :: List.replicate f.spacesAfter 32

def text (f : FormField) : CString :=
  34 :: (f.name ++ 34 :: (f.colon ++ 34 :: (f.value ++ [34])))

end FormField

/-- The network that is entered, and how its object is written. -/
structure WifiForm where
  ssid : CString
  password : CString
  ssid_isChar : ∀ c ∈ ssid, IsFormChar c
  password_isChar : ∀ c ∈ password, IsFormChar c
  ssidSpaces : ℕ × ℕ := (0, 0)
  passwordSpaces : ℕ × ℕ := (0, 0)
  ssidFirst : Bool := true

namespace WifiForm

def ssidField (f : WifiForm) : FormField where
  name := utf8 "ssid".toList
  value := f.ssid
  spacesBefore := f.ssidSpaces.1
  spacesAfter := f.ssidSpaces.2
  name_isChar := by decide +kernel
  value_isChar := f.ssid_isChar

def passwordField (f : WifiForm) : FormField where
  name := utf8 "password".toList
  value := f.password
  spacesBefore := f.passwordSpaces.1
  spacesAfter := f.passwordSpaces.2
  name_isChar := by decide +kernel
  value_isChar := f.password_isChar

end WifiForm

/-- An object of two members. -/
def objectOfTwo (f g : FormField) : CString := 123 :: (f.text ++ 44 :: (g.text ++ [125]))

namespace WifiForm

def text (f : WifiForm) : CString :=
  if f.ssidFirst then objectOfTwo f.ssidField f.passwordField
  else objectOfTwo f.passwordField f.ssidField

/-- Both fields are read exactly. -/
structure IsRead (f : WifiForm) : Prop where
  ssid : findJsonField f.text (utf8 "\"ssid\"".toList) = some f.ssid
  password : findJsonField f.text (utf8 "\"password\"".toList) = some f.password

/-- The value that is written first is the name of the other field. -/
def Confused (f : WifiForm) : Prop :=
  if f.ssidFirst then f.ssid = utf8 "password".toList else f.password = utf8 "ssid".toList

end WifiForm

namespace FormField

theorem quote_notMem_name (f : FormField) : 34 ∉ f.name := fun h => (f.name_isChar _ h).1 rfl

theorem quote_notMem_value (f : FormField) : 34 ∉ f.value := fun h => (f.value_isChar _ h).1 rfl

theorem quote_notMem_colon (f : FormField) : 34 ∉ f.colon := by
  simp [colon, List.mem_replicate]

/-- The search goes through a member that has another name and another value. -/
theorem search_text (f g : FormField) (rest : CString) :
    search (34 :: (f.name ++ [34])) (g.text ++ rest) =
      if f.name = g.name then some (g.text ++ rest)
      else if f.name = g.value then some (34 :: (g.value ++ 34 :: rest))
      else search (34 :: (f.name ++ [34])) (34 :: rest) := by
  have hcolon : f.name ≠ g.colon := by
    intro h
    have hmem : 58 ∈ f.name := h ▸ List.mem_append_right _ List.mem_cons_self
    exact (f.name_isChar _ hmem).2.2 rfl
  simp only [text, List.cons_append, List.append_assoc, List.nil_append]
  rw [search_quoted f.quote_notMem_name g.quote_notMem_name,
    search_quoted f.quote_notMem_name g.quote_notMem_colon, if_neg hcolon,
    search_quoted f.quote_notMem_name g.quote_notMem_value]

theorem skipSpaces_replicate (n : ℕ) {c : UInt8} (hc : c ≠ 32) (rest : CString) :
    CString.skipSpaces (List.replicate n 32 ++ c :: rest) = c :: rest := by
  rw [CString.skipSpaces, List.dropWhile_append_of_pos (by simp [List.mem_replicate])]
  simp [hc]

theorem upTo_append {c : UInt8} {s : CString} (hs : c ∉ s) (rest : CString) :
    CString.upTo c (s ++ c :: rest) = some s := by
  have hbefore : ∀ d ∈ s, decide (d ≠ c) = true := by
    intro d hd
    exact decide_eq_true fun h => hs (h ▸ hd)
  rw [CString.upTo, if_pos (List.mem_append_right _ List.mem_cons_self),
    List.takeWhile_append_of_pos hbefore]
  simp

theorem valueBehind_text (f : FormField) (rest : CString) :
    valueBehind (f.colon ++ 34 :: (f.value ++ 34 :: rest)) = some f.value := by
  rw [valueBehind, colon, List.append_assoc, List.cons_append, skipSpaces_replicate _ (by decide)]
  change (match CString.skipSpaces (List.replicate f.spacesAfter 32 ++ 34 :: (f.value ++ 34 :: rest))
    with
    | 34 :: pos => CString.upTo 34 pos
    | _ => none) = _
  rw [skipSpaces_replicate _ (by decide)]
  exact upTo_append f.quote_notMem_value rest

/-- What is read at the place of a member is its value. -/
theorem findJsonField_of_search {json : CString} (f : FormField) (rest : CString)
    (h : json.strstr (34 :: (f.name ++ [34])) = some (f.text ++ rest)) :
    findJsonField json (34 :: (f.name ++ [34])) = some f.value := by
  have htext : f.text ++ rest =
      (34 :: (f.name ++ [34])) ++ (f.colon ++ 34 :: (f.value ++ 34 :: rest)) := by
    simp [text]
  rw [findJsonField, h, htext, Option.bind_eq_bind, Option.bind_some, List.drop_left]
  exact f.valueBehind_text rest

/-- A value is no member: no colon follows it. -/
theorem findJsonField_of_value {json : CString} (f g : FormField) (rest : CString)
    (hvalue : f.name = g.value)
    (h : json.strstr (34 :: (f.name ++ [34])) = some (34 :: (g.value ++ 34 :: 44 :: rest))) :
    findJsonField json (34 :: (f.name ++ [34])) = none := by
  have htext : 34 :: (g.value ++ 34 :: 44 :: rest) = (34 :: (f.name ++ [34])) ++ 44 :: rest := by
    simp [hvalue]
  rw [findJsonField, h, htext, Option.bind_eq_bind, Option.bind_some, List.drop_left]
  rfl

theorem findJsonField_first (f g : FormField) :
    findJsonField (objectOfTwo f g) (34 :: (f.name ++ [34])) = some f.value := by
  apply findJsonField_of_search f (44 :: (g.text ++ [125]))
  have hbrace : (34 : UInt8) ∉ [123] := by decide
  have hskip := search_skip (f.name ++ [34]) hbrace (f.text ++ 44 :: (g.text ++ [125]))
  exact hskip.trans ((search_text f f _).trans (if_pos rfl))

theorem findJsonField_second {f g : FormField} (hname : g.name ≠ f.name) :
    findJsonField (objectOfTwo f g) (34 :: (g.name ++ [34])) = some g.value ↔
      g.name ≠ f.value := by
  have hbrace : (34 : UInt8) ∉ [123] := by decide
  have hplace : (objectOfTwo f g).strstr (34 :: (g.name ++ [34])) =
      if g.name = f.value then some (34 :: (f.value ++ 34 :: 44 :: (g.text ++ [125])))
      else some (g.text ++ [125]) := by
    have hcomma : g.name ≠ [44] := by
      intro h
      exact (g.name_isChar 44 (by rw [h]; exact List.mem_singleton_self _)).2.1 rfl
    have hnext : search (34 :: (g.name ++ [34])) (34 :: 44 :: (g.text ++ [125])) =
        some (g.text ++ [125]) := by
      have hskip := search_quoted g.quote_notMem_name
        (show (34 : UInt8) ∉ [44] by decide) (g.text ++ [125]).tail
      rw [if_neg hcomma] at hskip
      have htext : 34 :: (g.text ++ [125]).tail = g.text ++ [125] := rfl
      rw [List.singleton_append, htext] at hskip
      rw [hskip, search_text, if_pos rfl]
    have hskip := search_skip (g.name ++ [34]) hbrace (f.text ++ 44 :: (g.text ++ [125]))
    rw [search_text, if_neg hname, hnext] at hskip
    exact hskip
  constructor
  · intro h hvalue
    rw [if_pos hvalue] at hplace
    rw [findJsonField_of_value g f _ hvalue hplace] at h
    cases h
  · intro hvalue
    rw [if_neg hvalue] at hplace
    exact findJsonField_of_search g _ hplace

end FormField

namespace WifiForm
open FormField

theorem field_names (f : WifiForm) :
    utf8 "\"ssid\"".toList = 34 :: (f.ssidField.name ++ [34]) ∧
      utf8 "\"password\"".toList = 34 :: (f.passwordField.name ++ [34]) := by
  have hssid : utf8 "\"ssid\"".toList = 34 :: (utf8 "ssid".toList ++ [34]) := by decide
  have hpassword : utf8 "\"password\"".toList = 34 :: (utf8 "password".toList ++ [34]) := by decide
  exact ⟨hssid, hpassword⟩

/-- The form is read exactly unless its first value is the name of the second field. -/
theorem isRead_iff (f : WifiForm) : f.IsRead ↔ ¬ f.Confused := by
  obtain ⟨hssid, hpassword⟩ := f.field_names
  have hother : f.passwordField.name ≠ f.ssidField.name :=
    show utf8 "password".toList ≠ utf8 "ssid".toList by decide
  have hread : f.IsRead ↔ findJsonField f.text (34 :: (f.ssidField.name ++ [34])) = some f.ssid ∧
      findJsonField f.text (34 :: (f.passwordField.name ++ [34])) = some f.password := by
    rw [← hssid, ← hpassword]
    exact ⟨fun h => ⟨h.ssid, h.password⟩, fun h => ⟨h.1, h.2⟩⟩
  rw [hread, text, Confused]
  by_cases hfirst : f.ssidFirst = true
  · rw [if_pos hfirst, if_pos hfirst]
    have h1 : findJsonField (objectOfTwo f.ssidField f.passwordField)
        (34 :: (f.ssidField.name ++ [34])) = some f.ssid := findJsonField_first _ _
    have h2 := findJsonField_second hother
    constructor
    · rintro ⟨-, h⟩ heq
      exact h2.mp h heq.symm
    · intro h
      exact ⟨h1, h2.mpr fun heq => h heq.symm⟩
  · rw [if_neg hfirst, if_neg hfirst]
    have h1 : findJsonField (objectOfTwo f.passwordField f.ssidField)
        (34 :: (f.passwordField.name ++ [34])) = some f.password := findJsonField_first _ _
    have h2 := findJsonField_second hother.symm
    constructor
    · rintro ⟨h, -⟩ heq
      exact h2.mp h heq.symm
    · intro h
      exact ⟨h2.mpr fun heq => h heq.symm, h1⟩

/-- A network that is called `password`. -/
def passwordNamed : WifiForm where
  ssid := utf8 "password".toList
  password := utf8 "secret".toList
  ssid_isChar := by decide +kernel
  password_isChar := by decide +kernel

theorem passwordNamed_not_isRead : ¬ passwordNamed.IsRead := by
  intro h
  have hpassword := h.password
  revert hpassword
  decide

end WifiForm
end Ecotiter
