import StructEdit.Text.Basic

/-!
# Indentation rules

A rule belongs to the symbol at the head of a list. `block n` says that the first
`n` arguments are set apart and the body after them is indented by two columns.
`inner n limit` says that lists `n` levels below are indented by two columns, with
a limit only up to that many arguments.

A table keeps the rules of each symbol. Inserting replaces the rules that were
there, and the order of the entries does not matter.
-/
namespace StructEdit

inductive IndentRule where
  | block (args : Nat)
  | inner (depth : Nat) (limit : Option Nat)
  deriving DecidableEq, Repr

/-- Sets the entry of a key, in its old place or at the end. -/
def setEntry (symbol : Text) (rules : List IndentRule) :
    List (Text × List IndentRule) → List (Text × List IndentRule)
  | [] => [(symbol, rules)]
  | (s, rs) :: es => if s = symbol then (s, rules) :: es else (s, rs) :: setEntry symbol rules es

theorem mem_keys_setEntry {s symbol : Text} {rules : List IndentRule}
    {es : List (Text × List IndentRule)} (h : s ∈ (setEntry symbol rules es).map Prod.fst) :
    s = symbol ∨ s ∈ es.map Prod.fst := by
  induction es with
  | nil => simpa [setEntry] using h
  | cons e es ih =>
    simp only [setEntry] at h
    split at h
    · exact Or.inr (by simpa using h)
    · simp only [List.map_cons, List.mem_cons] at h ⊢
      rcases h with h | h
      · exact Or.inr (Or.inl h)
      · exact (ih h).imp id Or.inr

theorem nodup_setEntry (symbol : Text) (rules : List IndentRule)
    {es : List (Text × List IndentRule)} (h : (es.map Prod.fst).Nodup) :
    ((setEntry symbol rules es).map Prod.fst).Nodup := by
  induction es with
  | nil => simp [setEntry]
  | cons e es ih =>
    simp only [List.map_cons, List.nodup_cons] at h
    simp only [setEntry]
    split
    · exact List.nodup_cons.2 h
    · rename_i hne
      refine List.nodup_cons.2 ⟨fun hm => ?_, ih h.2⟩
      rcases mem_keys_setEntry hm with he | he
      · exact hne he
      · exact h.1 he

structure RuleTable where
  entries : List (Text × List IndentRule)
  nodup : (entries.map Prod.fst).Nodup

namespace RuleTable

def empty : RuleTable := ⟨[], List.nodup_nil⟩

def get? (t : RuleTable) (symbol : Text) : Option (List IndentRule) := t.entries.lookup symbol

/-- The rules of a symbol; a symbol without an entry has none. -/
def get (t : RuleTable) (symbol : Text) : List IndentRule := (t.get? symbol).getD []

def size (t : RuleTable) : Nat := t.entries.length

def isEmpty (t : RuleTable) : Bool := t.entries.isEmpty

def insert (t : RuleTable) (symbol : Text) (rules : List IndentRule) : RuleTable :=
  ⟨setEntry symbol rules t.entries, nodup_setEntry symbol rules t.nodup⟩

/-- Inserts the pairs one after the other, so that a later one wins. -/
def insertAll (t : RuleTable) (pairs : List (Text × List IndentRule)) : RuleTable :=
  pairs.foldl (fun t e => t.insert e.1 e.2) t

/-- Both tables give every symbol the same entry. -/
def agrees (t u : RuleTable) : Bool :=
  t.size == u.size && t.entries.all fun e => u.get? e.1 == some e.2

theorem lookup_cons_eq (s k : Text) (v : List IndentRule) (es : List (Text × List IndentRule)) :
    ((k, v) :: es).lookup s = if s = k then some v else es.lookup s := by
  rw [List.lookup_cons]
  by_cases h : s = k
  · simp [h]
  · have hb : (s == k) = false := by simpa using h
    simp [h, hb]

theorem lookup_setEntry (s symbol : Text) (rules : List IndentRule)
    (es : List (Text × List IndentRule)) :
    (setEntry symbol rules es).lookup s = if s = symbol then some rules else es.lookup s := by
  induction es with
  | nil => exact lookup_cons_eq s symbol rules []
  | cons e es ih =>
    obtain ⟨k, v⟩ := e
    simp only [setEntry]
    by_cases hk : k = symbol
    · by_cases hs : s = symbol <;> simp [lookup_cons_eq, hk, hs]
    · by_cases hs : s = k
      · simp [hk, hs]
      · simp [lookup_cons_eq, hk, hs, ih]

@[simp] theorem get?_insert (t : RuleTable) (s symbol : Text) (rules : List IndentRule) :
    (t.insert symbol rules).get? s = if s = symbol then some rules else t.get? s :=
  lookup_setEntry s symbol rules t.entries

end RuleTable
end StructEdit
