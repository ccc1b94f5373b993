/-
# Hash tables and symbol tables

A hash table with strings for keys and data is the list of its entries, in the order in which they were
made.  `globus_hashtable_insert` does not replace an entry.

A symbol table is a list of hash tables, its scopes, the innermost one first.  A symbol is looked up in one
scope after the other, and inserted in the first.
-/
import Mathlib.Tactic.Common

namespace Gct

open List

/-! ## 1. Hash tables -/

/-- A table of strings. -/
abbrev Table := List (List Char × List Char)

/-- `globus_hashtable_insert`: a key that is there already keeps its datum. -/
def Table.insert (t : Table) (key datum : List Char) : Table :=
  if (t.lookup key).isSome then t else t ++ [(key, datum)]

theorem Table.insert_of_notMem {table : Table} {key : List Char} (h : key ∉ table.map Prod.fst)
    (datum : List Char) : table.insert key datum = table ++ [(key, datum)] := by
  have hnone : table.lookup key = none := by
    rw [lookup_eq_none_iff]
    intro p hp
    rw [bne_iff_ne]
    exact fun heq => h (heq ▸ mem_map_of_mem hp)
  rw [Table.insert, hnone]
  rfl

/-- A datum is found under its key. -/
theorem Table.lookup_of_mem {table : Table} {key datum : List Char} (hnodup : (table.map Prod.fst).Nodup)
    (hmem : (key, datum) ∈ table) : table.lookup key = some datum := by
  induction table with
  | nil => exact absurd hmem not_mem_nil
  | cons p table ih =>
    rw [map_cons, nodup_cons] at hnodup
    rcases mem_cons.mp hmem with rfl | hmem
    · exact lookup_cons_self
    · have hne : key ≠ p.1 := fun heq => hnodup.1 (heq ▸ mem_map_of_mem hmem)
      rw [lookup_cons, beq_false_of_ne hne]
      exact ih hnodup.2 hmem

theorem Table.lookup_append (t t' : Table) (key : List Char) :
    (t ++ t').lookup key = (t.lookup key).or (t'.lookup key) := by
  induction t with
  | nil => rfl
  | cons p t ih =>
    rw [cons_append, lookup_cons, lookup_cons]
    cases key == p.1 with
    | true => rfl
    | false => exact ih

/-- Only a new key is found where it was not found before. -/
theorem Table.lookup_insert (t : Table) (key datum name : List Char) : (t.insert key datum).lookup name =
      if name = key then (t.lookup name).or (some datum) else t.lookup name := by
  unfold Table.insert
  by_cases hname : name = key
  · subst hname
    rw [if_pos rfl]
    cases hfound : t.lookup name with
    | some value => rw [Option.isSome_some, if_pos rfl, hfound, Option.or]
    | none =>
      rw [Option.isSome_none, if_neg (by decide), Table.lookup_append, hfound]
      simp
  · split
    · rfl
    · rw [Table.lookup_append]
      simp [lookup_cons, beq_false_of_ne hname]

/-! ## 2. Symbol tables -/

/-- `globus_symboltable_t` -/
abbrev SymbolTable := List Table

namespace SymbolTable

/-- `globus_symboltable_lookup` -/
def lookup (table : SymbolTable) (symbol : List Char) : Option (List Char) :=
  table.findSome? (·.lookup symbol)

/-- `globus_symboltable_insert`; without a scope nothing is inserted. -/
def insert (table : SymbolTable) (symbol datum : List Char) : SymbolTable :=
  match table with
  | [] => []
  | scope :: outer => scope.insert symbol datum :: outer

variable (table : SymbolTable)

/-- `globus_symboltable_create_scope` -/
def createScope : SymbolTable := [] :: table

/-- `globus_symboltable_remove_scope` -/
def removeScope : SymbolTable := table.tail

/-- The scopes of `before`, the innermost one perhaps with new entries. -/
def Extends (before after : SymbolTable) : Prop := ∃ entries : Table, after = before.modifyHead (· ++ entries)

theorem Extends.refl : Extends table table := by
  refine ⟨[], ?_⟩
  cases table with
  | nil => rfl
  | cons scope outer => rw [modifyHead_cons, append_nil]

theorem Extends.trans {a b c : SymbolTable} (h : Extends a b) (h' : Extends b c) : Extends a c := by
  obtain ⟨entries, rfl⟩ := h
  obtain ⟨entries', rfl⟩ := h'
  refine ⟨entries ++ entries', ?_⟩
  cases a with
  | nil => rfl
  | cons scope outer => simp [append_assoc]

theorem Extends.insert (symbol datum : List Char) : Extends table (table.insert symbol datum) := by
  cases table with
  | nil => exact ⟨[], rfl⟩
  | cons scope outer =>
    rw [SymbolTable.insert, Table.insert]
    split
    · exact Extends.refl _
    · exact ⟨[(symbol, datum)], rfl⟩

theorem Extends.length {before after : SymbolTable} (h : Extends before after) : after.length = before.length := by
  obtain ⟨entries, rfl⟩ := h
  exact length_modifyHead

/-- The scopes outside of the innermost one are the same. -/
theorem Extends.tail {before after : SymbolTable} (h : Extends before after) : after.tail = before.tail := by
  obtain ⟨entries, rfl⟩ := h
  cases before <;> rfl

end SymbolTable

end Gct
