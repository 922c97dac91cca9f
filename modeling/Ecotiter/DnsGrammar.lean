import Mathlib.Data.Nat.Notation
import Mathlib.Data.List.Basic

/-!
# The grammar of a DNS message

A message is a header with four counts, followed by that many questions and resource records. A name
is a sequence of labels that ends with an empty one or with a pointer to an earlier name. The
grammar is a relation between octets and what they stand for.
-/

namespace DnsGrammar

abbrev Octets := List UInt8
abbrev Label := List UInt8

/-- The 16-bit word at a position, the high octet first. -/
def word (msg : Octets) (i : ℕ) : Option ℕ := do
  let high ← msg[i]?
  let low ← msg[i + 1]?
  return high.toNat * 256 + low.toNat

def longWord (msg : Octets) (i : ℕ) : Option ℕ := do
  let high ← word msg i
  let low ← word msg (i + 2)
  return high * 65536 + low

/-- The labels of the name at a position and the position after the name. -/
inductive NameAt (msg : Octets) : ℕ → List Label → ℕ → Prop
  | root {i : ℕ} (h : msg[i]? = some 0) : NameAt msg i [] (i + 1)
  | label {i next : ℕ} {len : UInt8} {labels : List Label} (h : msg[i]? = some len)
      (hpos : 1 ≤ len.toNat) (hlen : len.toNat ≤ 63) (hin : i + 1 + len.toNat ≤ msg.length)
      (hrest : NameAt msg (i + 1 + len.toNat) labels next) :
      NameAt msg i ((msg.drop (i + 1)).take len.toNat :: labels) next
  | pointer {i next : ℕ} {high low : UInt8} {labels : List Label} (h : msg[i]? = some high)
      (hhigh : 192 ≤ high.toNat) (hlow : msg[i + 1]? = some low)
      (hbefore : (high.toNat - 192) * 256 + low.toNat < i)
      (htarget : NameAt msg ((high.toNat - 192) * 256 + low.toNat) labels next) :
      NameAt msg i labels (i + 2)

structure Question where
  name : List Label
  qtype : ℕ
  qclass : ℕ

structure ResourceRecord where
  name : List Label
  type : ℕ
  cls : ℕ
  ttl : ℕ
  rdata : Octets

structure Message where
  id : ℕ
  flags : ℕ
  questions : List Question
  answers : List ResourceRecord
  authority : List ResourceRecord
  additional : List ResourceRecord

def QuestionAt (msg : Octets) (i : ℕ) (q : Question) (next : ℕ) : Prop :=
  ∃ j, NameAt msg i q.name j ∧ word msg j = some q.qtype ∧ word msg (j + 2) = some q.qclass ∧
    next = j + 4

def RecordAt (msg : Octets) (i : ℕ) (r : ResourceRecord) (next : ℕ) : Prop :=
  ∃ j, NameAt msg i r.name j ∧ word msg j = some r.type ∧ word msg (j + 2) = some r.cls ∧
    longWord msg (j + 4) = some r.ttl ∧ word msg (j + 8) = some r.rdata.length ∧
    j + 10 + r.rdata.length ≤ msg.length ∧ (msg.drop (j + 10)).take r.rdata.length = r.rdata ∧
    next = j + 10 + r.rdata.length

/-- Items of a kind one after the other. -/
inductive ListAt {α : Type} (At : ℕ → α → ℕ → Prop) : ℕ → List α → ℕ → Prop
  | nil {i : ℕ} : ListAt At i [] i
  | cons {i j k : ℕ} {x : α} {xs : List α} (hx : At i x j) (hxs : ListAt At j xs k) :
      ListAt At i (x :: xs) k

/-- The octets are exactly a message. -/
structure Parses (msg : Octets) (m : Message) : Prop where
  id : word msg 0 = some m.id
  flags : word msg 2 = some m.flags
  questionCount : word msg 4 = some m.questions.length
  answerCount : word msg 6 = some m.answers.length
  authorityCount : word msg 8 = some m.authority.length
  additionalCount : word msg 10 = some m.additional.length
  body : ∃ i j k, ListAt (QuestionAt msg) 12 m.questions i ∧ ListAt (RecordAt msg) i m.answers j ∧
    ListAt (RecordAt msg) j m.authority k ∧ ListAt (RecordAt msg) k m.additional msg.length

/-- The octets of a name without pointers. -/
def encodeName (labels : List Label) : Octets :=
  labels.flatMap (fun l => UInt8.ofNat l.length :: l) ++ [0]

/-- The octets of a word. -/
def encodeWord (n : ℕ) : Octets := [UInt8.ofNat (n / 256), UInt8.ofNat n]

def ValidLabel (l : Label) : Prop := 1 ≤ l.length ∧ l.length ≤ 63

instance : DecidablePred ValidLabel := fun l =>
  inferInstanceAs (Decidable (1 ≤ l.length ∧ l.length ≤ 63))

variable {msg : Octets} {i : ℕ}

/-- What a position stands for and where it ends is determined. -/
theorem NameAt.unique {labels labels' : List Label} {next next' : ℕ}
    (h : NameAt msg i labels next) (h' : NameAt msg i labels' next') :
    labels = labels' ∧ next = next' := by
  induction h generalizing labels' next' with
  | root hzero =>
    cases h' with
    | root => exact ⟨rfl, rfl⟩
    | label hlen hpos =>
      rw [hzero] at hlen
      cases hlen
      exact absurd hpos (by decide)
    | pointer hhigh hlarge =>
      rw [hzero] at hhigh
      cases hhigh
      exact absurd hlarge (by decide)
  | label hlen hpos hsmall hin hrest ih =>
    cases h' with
    | root hzero =>
      rw [hlen] at hzero
      cases hzero
      exact absurd hpos (by decide)
    | label hlen' _ _ _ hrest' =>
      rw [hlen] at hlen'
      cases hlen'
      obtain ⟨rfl, rfl⟩ := ih hrest'
      exact ⟨rfl, rfl⟩
    | pointer hhigh hlarge =>
      rw [hlen] at hhigh
      cases hhigh
      omega
  | pointer hhigh hlarge hlow hbefore htarget ih =>
    cases h' with
    | root hzero =>
      rw [hhigh] at hzero
      cases hzero
      exact absurd hlarge (by decide)
    | label hlen _ hsmall =>
      rw [hhigh] at hlen
      cases hlen
      omega
    | pointer hhigh' _ hlow' _ htarget' =>
      rw [hhigh] at hhigh'
      rw [hlow] at hlow'
      cases hhigh'
      cases hlow'
      exact ⟨(ih htarget').1, rfl⟩

theorem word_append (pre post : Octets) {n : ℕ} (hn : n < 65536) :
    word (pre ++ encodeWord n ++ post) pre.length = some n := by
  have hvalue : n / 256 % 256 * 256 + n % 256 = n := by omega
  simp [word, encodeWord, hvalue]

theorem word_append_right (pre post : Octets) (k : ℕ) :
    word (pre ++ post) (pre.length + k) = word post k := by
  unfold word
  rw [Nat.add_assoc, List.getElem?_append_right (Nat.le_add_right ..),
    List.getElem?_append_right (Nat.le_add_right ..), Nat.add_sub_cancel_left,
    Nat.add_sub_cancel_left]

/-- An encoded name stands for its labels, wherever it is. -/
theorem nameAt_encodeName {labels : List Label} (h : ∀ l ∈ labels, ValidLabel l)
    (pre post : Octets) : NameAt (pre ++ encodeName labels ++ post) pre.length labels
      (pre.length + (encodeName labels).length) := by
  induction labels generalizing pre with
  | nil => exact .root (by simp [encodeName])
  | cons l labels ih =>
    obtain ⟨hpos, hlen⟩ := h l (List.mem_cons_self ..)
    have hvalue : (UInt8.ofNat l.length).toNat = l.length := by
      rw [UInt8.toNat_ofNat']
      omega
    have hsplit : pre ++ encodeName (l :: labels) ++ post =
        (pre ++ UInt8.ofNat l.length :: l) ++ encodeName labels ++ post := by
      simp [encodeName]
    have hrest := ih (fun l hl => h l (List.mem_cons_of_mem _ hl))
      (pre ++ UInt8.ofNat l.length :: l)
    rw [← hsplit] at hrest
    have hget : (pre ++ encodeName (l :: labels) ++ post)[pre.length]? =
        some (UInt8.ofNat l.length) := by
      simp [encodeName]
    have hlabel : ((pre ++ encodeName (l :: labels) ++ post).drop (pre.length + 1)).take
        (UInt8.ofNat l.length).toNat = l := by
      rw [hvalue]
      simp [encodeName]
    have hnext : (pre ++ UInt8.ofNat l.length :: l).length + (encodeName labels).length =
        pre.length + (encodeName (l :: labels)).length := by
      simp only [encodeName, List.length_append, List.length_cons, List.flatMap_cons]
      omega
    have hstart : (pre ++ UInt8.ofNat l.length :: l).length =
        pre.length + 1 + (UInt8.ofNat l.length).toNat := by
      rw [hvalue, List.length_append, List.length_cons]
      omega
    rw [hnext, hstart] at hrest
    have hname := NameAt.label hget (by omega) (by omega) (by
      rw [hvalue]
      simp only [encodeName, List.length_append, List.length_cons, List.flatMap_cons]
      omega) hrest
    rwa [hlabel] at hname

end DnsGrammar
