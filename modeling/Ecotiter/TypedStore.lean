import Mathlib.Tactic.Common

/-!
# Stores with namespaces and typed entries

What a program may rely on when it keeps entries of a few integer types under keys in namespaces: a
value that was set is found under its key and type, and neither the other keys nor the other
namespaces change.
-/

namespace TypedStore

inductive EntryType
  | u8 | u32 | i32
  deriving DecidableEq

abbrev EntryType.Value : EntryType → Type
  | .u8 => UInt8
  | .u32 => UInt32
  | .i32 => Int32

inductive Lookup (α : Type)
  | found (a : α) | notFound | failed

/-- A store with its guarantees. The view of a namespace determines what is found there. -/
structure Store (σ V : Type) where
  view : σ → String → V
  get : (τ : EntryType) → String → V → Lookup τ.Value
  openNamespace : String → Bool → σ → Bool × σ
  set : (τ : EntryType) → String → String → τ.Value → σ → Bool × σ
  commit : String → σ → Bool × σ
  open_found : ∀ {τ ns key v s}, get τ key (view s ns) = .found v →
    openNamespace ns false s = (true, s)
  view_open : ∀ {ns ns' readWrite s}, ns' ≠ ns →
    view (openNamespace ns readWrite s).2 ns' = view s ns'
  get_set : ∀ {τ ns key v s}, (set τ ns key v s).1 = true →
    get τ key (view (set τ ns key v s).2 ns) = .found v
  get_set_of_ne : ∀ {τ τ' ns key key' v s}, (set τ ns key v s).1 = true → key' ≠ key →
    get τ' key' (view (set τ ns key v s).2 ns) = get τ' key' (view s ns)
  view_set : ∀ {τ ns ns' key v s}, ns' ≠ ns → view (set τ ns key v s).2 ns' = view s ns'
  view_commit : ∀ {ns ns' s}, view (commit ns s).2 ns' = view s ns'

structure Entry where
  type : EntryType
  key : String
  value : type.Value

namespace Store
variable {σ V : Type} {store : Store σ V} {s t u : σ} {ns : String} {entries : List Entry}

/-- The entries are found in the namespace. -/
def Finds (store : Store σ V) (s : σ) (ns : String) (entries : List Entry) : Prop :=
  ∀ e ∈ entries, store.get e.type e.key (store.view s ns) = .found e.value

/-- Only the given namespace may have changed. -/
def SameElsewhere (store : Store σ V) (ns : String) (s t : σ) : Prop :=
  ∀ ns', ns' ≠ ns → store.view t ns' = store.view s ns'

theorem SameElsewhere.trans (h : store.SameElsewhere ns s t) (h' : store.SameElsewhere ns t u) :
    store.SameElsewhere ns s u := fun ns' hne => (h' ns' hne).trans (h ns' hne)

theorem sameElsewhere_open {readWrite : Bool} :
    store.SameElsewhere ns s (store.openNamespace ns readWrite s).2 :=
  fun _ hne => store.view_open hne

theorem sameElsewhere_set {τ : EntryType} {key : String} {v : τ.Value} :
    store.SameElsewhere ns s (store.set τ ns key v s).2 :=
  fun _ hne => store.view_set hne

theorem sameElsewhere_commit : store.SameElsewhere ns s (store.commit ns s).2 :=
  fun _ _ => store.view_commit

theorem finds_nil : store.Finds s ns [] := fun _ he => absurd he List.not_mem_nil

/-- A new entry joins those that are there. -/
theorem Finds.set {τ : EntryType} {key : String} {v : τ.Value} (h : store.Finds s ns entries)
    (hok : (store.set τ ns key v s).1 = true) (hfresh : key ∉ entries.map Entry.key) :
    store.Finds (store.set τ ns key v s).2 ns (⟨τ, key, v⟩ :: entries) := by
  intro e he
  rcases List.mem_cons.mp he with rfl | he
  · exact store.get_set hok
  · rw [store.get_set_of_ne hok fun hkey => hfresh (hkey ▸ List.mem_map_of_mem he)]
    exact h e he

theorem Finds.commit (h : store.Finds s ns entries) :
    store.Finds (store.commit ns s).2 ns entries := by
  intro e he
  rw [store.view_commit]
  exact h e he

theorem Finds.open {e : Entry} (h : store.Finds s ns (e :: entries)) :
    store.openNamespace ns false s = (true, s) :=
  store.open_found (h e List.mem_cons_self)

end Store

/-! ## A store in memory -/

/-- The entries of a namespace by key; an entry has one of the types. -/
abbrev Entries := String → Option ((τ : EntryType) × τ.Value)

def Entries.get (τ : EntryType) (key : String) (entries : Entries) : Lookup τ.Value :=
  match entries key with
  | none => .notFound
  | some ⟨τ', v⟩ => if h : τ' = τ then .found (h ▸ v) else .failed

/-- Namespaces exist once they have been opened for writing; every write succeeds. -/
def inMemory : Store (String → Option Entries) Entries where
  view s ns := (s ns).getD fun _ => none
  get := Entries.get
  openNamespace ns readWrite s :=
    if readWrite then (true, Function.update s ns (some ((s ns).getD fun _ => none)))
    else ((s ns).isSome, s)
  set τ ns key v s :=
    (true, Function.update s ns
      (some (Function.update ((s ns).getD fun _ => none) key (some ⟨τ, v⟩))))
  commit _ s := (true, s)
  open_found := by
    intro τ ns key v s h
    cases hns : s ns with
    | none => simp [hns, Entries.get] at h
    | some entries => simp
  view_open := by
    intro ns ns' readWrite s hne
    cases readWrite <;> simp [Function.update_of_ne hne]
  get_set := by
    intro τ ns key v s _
    simp [Entries.get]
  get_set_of_ne := by
    intro τ τ' ns key key' v s _ hne
    simp [Entries.get, Function.update_of_ne hne]
  view_set := by
    intro τ ns ns' key v s hne
    simp [Function.update_of_ne hne]
  view_commit := rfl

end TypedStore
