/-
Tables that are read.

While a document is read, its tables are lists of entries into which entries are put one after the other,
each in its place.  So whatever the order of the lines, in a table that has been read the keys stand in
increasing order, each once, and so they do in every table inside (`Ordered`).  Each step of reading keeps this,
from a single entry (`OrderedItems.insert`) to a line (`Draft.Ordered.add`) and to the whole document
(`ordered_of_read`).
-/
import Mathlib.Data.Option.Basic
import VariantFold.Proofs.KeyMaps
import VariantFold.Toml.Document

namespace VariantFold

lemma SortedEntries.of_names {α β : Type} {entries : List (String × α)} {entries' : List (String × β)}
    (h : SortedEntries entries) (hnames : entries'.map Prod.fst = entries.map Prod.fst) :
    SortedEntries entries' := by
  have hpairwise : (entries.map Prod.fst).Pairwise (· < ·) := List.pairwise_map.2 h
  rw [← hnames] at hpairwise
  exact List.pairwise_map.1 hpairwise

lemma exists_of_bind_ok {ε α β : Type} {x : Except ε α} {f : α → Except ε β} {b : β}
    (h : x >>= f = .ok b) : ∃ a, x = .ok a ∧ f a = .ok b := by
  cases x with
  | error e => exact absurd h (by simp [bind, Except.bind])
  | ok a => exact ⟨a, rfl, h⟩

namespace Toml

variable {key : String} {path : List String} {item : Item} {items items' : Items} {v w : Value}

/-- A value that is no table. -/
def Value.IsLeaf (v : Value) : Prop := ∀ entries, v ≠ .table entries

/-- In a value that is a table, and in all tables inside, keys stand in increasing order, each once.  Arrays
are not looked into. -/
inductive Value.Ordered : Value → Prop
  | leaf {v : Value} (h : v.IsLeaf) : v.Ordered
  | table {entries : List (String × Value)} (sorted : SortedEntries entries)
      (inside : ∀ e ∈ entries, e.2.Ordered) : (Value.table entries).Ordered

/-- In a table and in all tables inside, keys stand in increasing order, each once. -/
def Ordered (table : Table) : Prop := (Value.table table).Ordered

/-- The same for what is being read, lists of tables included. -/
inductive Item.Ordered : Item → Prop
  | value {v : Value} (h : v.Ordered) : (Item.value v).Ordered
  | table {implied dotted : Bool} {entries : List (String × Item)} (sorted : SortedEntries entries)
      (inside : ∀ e ∈ entries, e.2.Ordered) : (Item.table implied dotted entries).Ordered
  | tables {elements : List (List (String × Item))} (sorted : ∀ entries ∈ elements, SortedEntries entries)
      (inside : ∀ entries ∈ elements, ∀ e ∈ entries, e.2.Ordered) : (Item.tables elements).Ordered

/-- The same for a table that is being read. -/
structure OrderedItems (items : Items) : Prop where
  sorted : SortedEntries items
  inside : ∀ e ∈ items, e.2.Ordered

/-! ### Single entries -/

lemma OrderedItems.nil : OrderedItems [] := ⟨List.Pairwise.nil, by simp⟩

lemma OrderedItems.find (h : OrderedItems items) (hfind : findEntry key items = some item) :
    item.Ordered :=
  h.inside _ (h.sorted.findEntry_eq_some_iff.1 hfind)

lemma OrderedItems.insert (h : OrderedItems items) (hitem : item.Ordered) :
    OrderedItems (insertEntry key item items) := by
  refine ⟨h.sorted.insertEntry key item, fun e he => ?_⟩
  rcases mem_insertEntry he with rfl | he
  · exact hitem
  · exact h.inside e he

lemma Item.ordered_table {implied dotted : Bool} :
    (Item.table implied dotted items).Ordered ↔ OrderedItems items := by
  constructor
  · rintro (_ | ⟨sorted, inside⟩)
    exact ⟨sorted, inside⟩
  · intro h
    exact .table h.sorted h.inside

lemma Item.ordered_tables {elements : List Items} :
    (Item.tables elements).Ordered ↔ ∀ items ∈ elements, OrderedItems items := by
  constructor
  · rintro (_ | _ | ⟨sorted, inside⟩) items hitems
    exact ⟨sorted items hitems, inside items hitems⟩
  · intro h
    exact .tables (fun items hitems => (h items hitems).sorted)
      (fun items hitems => (h items hitems).inside)

/-- The last of a list of tables can change. -/
lemma Item.Ordered.setLast {elements : List Items} (h : (Item.tables elements).Ordered)
    (hitems : OrderedItems items) : (Item.tables (elements.dropLast ++ [items])).Ordered := by
  rw [Item.ordered_tables] at h ⊢
  intro items' hmem
  rcases List.mem_append.1 hmem with hmem | hmem
  · exact h items' ((List.dropLast_sublist elements).subset hmem)
  · rwa [List.mem_singleton.1 hmem]

/-! ### Tables inside tables -/

/-- A change that keeps the table at the end of a path in order keeps all tables in order. -/
lemma OrderedItems.changeAt {change : Items → Option Items}
    (hchange : ∀ items items', OrderedItems items → change items = some items' → OrderedItems items')
    (h : OrderedItems items) (heq : changeAt change path items = some items') :
    OrderedItems items' := by
  fun_induction Toml.changeAt change path items generalizing items' with
  | case1 items => exact hchange items items' h heq
  | case2 key path items hfind ih =>
    obtain ⟨inner, hinner, rfl⟩ := Option.map_eq_some_iff.1 heq
    exact h.insert (Item.ordered_table.2 (ih OrderedItems.nil hinner))
  | case3 key path items implied dotted inner hfind ih =>
    obtain ⟨inner', hinner, rfl⟩ := Option.map_eq_some_iff.1 heq
    exact h.insert (Item.ordered_table.2 (ih (Item.ordered_table.1 (h.find hfind)) hinner))
  | case4 key path items elements hfind last hlast ih =>
    obtain ⟨last', hlast', rfl⟩ := Option.map_eq_some_iff.1 heq
    have helements := h.find hfind
    have hordered := Item.ordered_tables.1 helements last (List.mem_of_getLast? hlast)
    exact h.insert (helements.setLast (ih hordered hlast'))
  | case5 => exact absurd heq (by simp)
  | case6 => exact absurd heq (by simp)

lemma OrderedItems.reach (h : OrderedItems items) (heq : reach path items = some items') :
    OrderedItems items' := by
  induction path generalizing items with
  | nil =>
    obtain rfl := Option.some_injective _ heq
    exact h
  | cons key path ih =>
    rw [Toml.reach] at heq
    split at heq
    · obtain rfl := Option.some_injective _ heq
      exact OrderedItems.nil
    · rename_i implied dotted inner hfind
      exact ih (Item.ordered_table.1 (h.find hfind)) heq
    · rename_i elements hfind
      obtain ⟨last, hlast, heq⟩ := Option.bind_eq_some_iff.1 heq
      exact ih (Item.ordered_tables.1 (h.find hfind) last (List.mem_of_getLast? hlast)) heq
    · exact absurd heq (by simp)

lemma OrderedItems.openTable (h : OrderedItems items) (heq : openTable key items = some items') :
    OrderedItems items' := by
  rw [Toml.openTable] at heq
  split at heq
  · obtain rfl := Option.some_injective _ heq
    exact OrderedItems.nil
  · rename_i inner hfind
    obtain rfl := Option.some_injective _ heq
    exact Item.ordered_table.1 (h.find hfind)
  · exact absurd heq (by simp)

lemma OrderedItems.addElement {inner : Items} (hinner : OrderedItems inner) (h : OrderedItems items)
    (heq : addElement key inner items = some items') : OrderedItems items' := by
  rw [Toml.addElement] at heq
  split at heq
  · obtain rfl := Option.some_injective _ heq
    refine h.insert (Item.ordered_tables.2 fun items hmem => ?_)
    rwa [List.mem_singleton.1 hmem]
  · rename_i elements hfind
    obtain rfl := Option.some_injective _ heq
    refine h.insert (Item.ordered_tables.2 fun items hmem => ?_)
    rcases List.mem_append.1 hmem with hmem | hmem
    · exact Item.ordered_tables.1 (h.find hfind) items hmem
    · rwa [List.mem_singleton.1 hmem]
  · exact absurd heq (by simp)

/-- A value can be given to a dotted key. -/
lemma OrderedItems.addDotted (h : OrderedItems items) (hv : v.Ordered)
    (heq : addDotted v path items = some items') : OrderedItems items' := by
  fun_induction Toml.addDotted v path items generalizing items' with
  | case1 => exact absurd heq (by simp)
  | case2 key items =>
    rw [addNew] at heq
    split at heq
    · obtain rfl := Option.some_injective _ heq
      exact h.insert (.value hv)
    · exact absurd heq (by simp)
  | case3 key next path items hfind ih =>
    obtain ⟨inner, hinner, rfl⟩ := Option.map_eq_some_iff.1 heq
    exact h.insert (Item.ordered_table.2 (ih OrderedItems.nil hinner))
  | case4 key next path items dotted inner hfind ih =>
    obtain ⟨inner', hinner, rfl⟩ := Option.map_eq_some_iff.1 heq
    exact h.insert (Item.ordered_table.2 (ih (Item.ordered_table.1 (h.find hfind)) hinner))
  | case5 key next items elements hfind head tail last hlast ih =>
    obtain ⟨last', hlast', rfl⟩ := Option.map_eq_some_iff.1 heq
    have helements := h.find hfind
    have hordered := Item.ordered_tables.1 helements last (List.mem_of_getLast? hlast)
    exact h.insert (helements.setLast (ih hordered hlast'))
  | case6 => exact absurd heq (by simp)
  | case7 => exact absurd heq (by simp)

/-! ### The end of a document -/

lemma closeItems_eq (items : Items) : closeItems items = items.map fun e => (e.1, e.2.close) := by
  induction items with
  | nil => rfl
  | cons e items ih => rw [closeItems, ih, List.map_cons]

lemma Item.Ordered.close (h : item.Ordered) : item.close.Ordered := by
  induction h with
  | value h =>
    rw [Item.close]
    exact h
  | @table implied dotted entries sorted inside ih =>
    rw [Item.close, closeItems_eq]
    refine .table (sorted.of_names (by rw [List.map_map]; rfl)) fun e' he' => ?_
    obtain ⟨e, he, rfl⟩ := List.mem_map.1 he'
    exact ih e he
  | tables =>
    rw [Item.close]
    exact .leaf (by simp [Value.IsLeaf])

lemma OrderedItems.close (h : OrderedItems items) : Ordered (closeItems items) := by
  have htable : (Item.table false false items).Ordered := Item.ordered_table.2 h
  have hclose := htable.close
  rwa [Item.close] at hclose

/-- Dates and times in the place of tables do not change keys. -/
lemma of_resolveEntries {entries entries' : List (String × Value)}
    (h : resolveEntries entries = some entries') : entries'.map Prod.fst = entries.map Prod.fst ∧
      ∀ e' ∈ entries', ∃ e ∈ entries, e.2.resolve = some e'.2 := by
  induction entries generalizing entries' with
  | nil =>
    rw [resolveEntries] at h
    obtain rfl := Option.some_injective _ h
    simp
  | cons e entries ih =>
    rw [resolveEntries] at h
    split at h
    · rename_i w rest hv hrest
      obtain rfl := Option.some_injective _ h
      obtain ⟨hnames, hmem⟩ := ih hrest
      refine ⟨by simp [hnames], fun e' he' => ?_⟩
      rcases List.mem_cons.1 he' with rfl | he'
      · exact ⟨e, List.mem_cons_self, hv⟩
      · obtain ⟨d, hd, hresolve⟩ := hmem e' he'
        exact ⟨d, List.mem_cons_of_mem e hd, hresolve⟩
    · exact absurd h (by simp)

lemma Value.of_resolve_table {entries : List (String × Value)}
    (h : (Value.table entries).resolve = some w) :
    w.IsLeaf ∨ ∃ entries', resolveEntries entries = some entries' ∧ w = .table entries' := by
  rcases entries with _ | ⟨⟨key, v⟩, entries⟩
  · rw [Value.resolve] at h
    obtain rfl := Option.some_injective _ h
    exact Or.inr ⟨[], by rw [resolveEntries], rfl⟩
  · rw [Value.resolve.eq_def] at h
    dsimp only at h
    split at h
    · split at h
      · split at h
        · obtain rfl := Option.some_injective _ h
          exact Or.inl (by simp [Value.IsLeaf])
        · exact absurd h (by simp)
      · exact absurd h (by simp)
    · split at h
      · rename_i v rest hv hrest
        obtain rfl := Option.some_injective _ h
        exact Or.inr ⟨_, by rw [resolveEntries, hv, hrest], rfl⟩
      · exact absurd h (by simp)

lemma Value.IsLeaf.resolve (h : v.IsLeaf) (heq : v.resolve = some w) : w.IsLeaf := by
  cases v with
  | table entries => exact absurd rfl (h entries)
  | array items =>
    rw [Value.resolve] at heq
    obtain ⟨items', -, rfl⟩ := Option.map_eq_some_iff.1 heq
    simp [Value.IsLeaf]
  | _ =>
    rw [Value.resolve] at heq
    obtain rfl := Option.some_injective _ heq
    exact h

lemma ordered_of_resolveEntries {entries entries' : List (String × Value)}
    (sorted : SortedEntries entries)
    (inside : ∀ e ∈ entries, ∀ w, e.2.resolve = some w → w.Ordered)
    (heq : resolveEntries entries = some entries') : Ordered entries' := by
  obtain ⟨hnames, hmem⟩ := of_resolveEntries heq
  refine .table (sorted.of_names hnames) fun e' he' => ?_
  obtain ⟨e, he, hresolve⟩ := hmem e' he'
  exact inside e he e'.2 hresolve

lemma Value.Ordered.resolve (h : v.Ordered) (heq : v.resolve = some w) : w.Ordered := by
  induction h generalizing w with
  | leaf h => exact .leaf (h.resolve heq)
  | @table entries sorted inside ih =>
    rcases Value.of_resolve_table heq with hleaf | ⟨entries', hentries, rfl⟩
    · exact .leaf hleaf
    · exact ordered_of_resolveEntries sorted (fun e he w hw => ih e he hw) hentries

lemma Ordered.resolve {table table' : Table} (h : Ordered table)
    (heq : resolveEntries table = some table') : Ordered table' := by
  cases h with
  | leaf h => exact absurd rfl (h table)
  | table sorted inside =>
    exact ordered_of_resolveEntries sorted (fun e he w hw => (inside e he).resolve hw) heq

/-! ### Values and lines -/

lemma of_orMalformed {α : Type} {o : Option α} {a : α} (h : orMalformed o = .ok a) : o = some a := by
  cases o with
  | none => exact absurd h (by simp [orMalformed])
  | some b => rw [Except.ok.inj h]

/-- A word spells no table. -/
lemma Lexeme.isLeaf_value {word : Lexeme} (h : word.value? = some v) : v.IsLeaf := by
  intro entries
  rintro rfl
  rw [Lexeme.value?.eq_def] at h
  split at h
  · exact absurd h (by simp)
  · rw [atom?] at h
    split_ifs at h
    · exact absurd h (by simp)
    · exact absurd h (by simp)
    · exact absurd h (by simp)
    · split at h
      · exact absurd h (by simp)
      · exact absurd h (by simp)
  · exact absurd h (by simp)
  · exact absurd h (by simp)

mutual

theorem Term.ordered_value : ∀ (term : Term) {v : Value}, term.value = .ok v → v.Ordered
  | .scalar word, v, h => by
    rw [Term.value] at h
    exact .leaf (Lexeme.isLeaf_value (of_orMalformed h))
  | .array items, v, h => by
    rw [Term.value] at h
    obtain ⟨vs, -, h⟩ := exists_of_bind_ok h
    rw [← Except.ok.inj h]
    exact .leaf (by simp [Value.IsLeaf])
  | .table settings, v, h => by
    rw [Term.value] at h
    obtain ⟨items, hitems, h⟩ := exists_of_bind_ok h
    rw [← Except.ok.inj h]
    exact (ordered_readSettings settings OrderedItems.nil hitems).close

theorem ordered_readSettings : ∀ (settings : List (List Lexeme × Term)) {items items' : Items},
    OrderedItems items → readSettings items settings = .ok items' → OrderedItems items'
  | [], items, items', hitems, h => by
    rw [readSettings] at h
    rwa [← Except.ok.inj h]
  | (words, term) :: rest, items, items', hitems, h => by
    rw [readSettings] at h
    obtain ⟨key, -, h⟩ := exists_of_bind_ok h
    obtain ⟨v, hv, h⟩ := exists_of_bind_ok h
    obtain ⟨added, hadded, h⟩ := exists_of_bind_ok h
    have hordered := hitems.addDotted (Term.ordered_value term hv) (of_orMalformed hadded)
    exact ordered_readSettings rest hordered h

end

/-- The tables of a document up to a line. -/
structure Draft.Ordered (draft : Draft) : Prop where
  items : OrderedItems draft.items
  current : OrderedItems draft.current

variable {draft draft' : Draft}

lemma Draft.Ordered.close (h : draft.Ordered) (heq : draft.close = some items) : OrderedItems items := by
  rw [Draft.close.eq_def] at heq
  split at heq
  · rw [← Option.some_injective _ heq]
    exact h.current
  · exact h.items.changeAt (fun _ _ hitems => OrderedItems.addElement h.current hitems) heq
  · refine h.items.changeAt (fun items items' hitems hput => ?_) heq
    rw [← Option.some_injective _ hput]
    exact hitems.insert (Item.ordered_table.2 h.current)

lemma OrderedItems.start {header : Header} (h : OrderedItems items)
    (heq : Draft.start items header = some draft) : draft.Ordered := by
  rw [Draft.start] at heq
  split at heq
  · rw [← Option.some_injective _ heq]
    exact ⟨h, OrderedItems.nil⟩
  · obtain ⟨reached, hreach, heq⟩ := Option.bind_eq_some_iff.1 heq
    obtain ⟨current, hopen, heq⟩ := Option.bind_eq_some_iff.1 heq
    rw [← Option.some_injective _ heq]
    exact ⟨h, (h.reach hreach).openTable hopen⟩

lemma Draft.Ordered.next {element : Bool} {words : List Lexeme} (h : draft.Ordered)
    (heq : draft.next element words = .ok draft') : draft'.Ordered := by
  obtain ⟨items, hclose, heq⟩ := exists_of_bind_ok heq
  obtain ⟨path, -, heq⟩ := exists_of_bind_ok heq
  obtain ⟨key, -, heq⟩ := exists_of_bind_ok heq
  exact (h.close (of_orMalformed hclose)).start (of_orMalformed heq)

/-- One more line keeps the tables in order. -/
lemma Draft.Ordered.add {line : Expression} (h : draft.Ordered) (heq : draft.add line = .ok draft') :
    draft'.Ordered := by
  cases line with
  | table words => exact h.next heq
  | element words => exact h.next heq
  | setting words term =>
    obtain ⟨key, -, heq⟩ := exists_of_bind_ok heq
    obtain ⟨v, hv, heq⟩ := exists_of_bind_ok heq
    obtain ⟨current, hcurrent, heq⟩ := exists_of_bind_ok heq
    rw [← Except.ok.inj heq]
    exact ⟨h.items, h.current.addDotted (Term.ordered_value term hv) (of_orMalformed hcurrent)⟩

lemma Draft.Ordered.addAll {lines : List Expression} (h : draft.Ordered)
    (heq : lines.foldlM Draft.add draft = .ok draft') : draft'.Ordered := by
  induction lines generalizing draft with
  | nil =>
    rw [← Except.ok.inj heq]
    exact h
  | cons line lines ih =>
    rw [List.foldlM_cons] at heq
    obtain ⟨next, hnext, heq⟩ := exists_of_bind_ok heq
    exact ih (h.add hnext) heq

/-- Whatever the order of its lines, a document is read as a table in which keys stand in order. -/
lemma ordered_of_read {text : String} {table : Table} (h : read text = .ok table) : Ordered table := by
  obtain ⟨lines, -, h⟩ := exists_of_bind_ok h
  obtain ⟨draft, hdraft, h⟩ := exists_of_bind_ok h
  obtain ⟨items, hitems, h⟩ := exists_of_bind_ok h
  have hnew : Draft.Ordered {} := ⟨OrderedItems.nil, OrderedItems.nil⟩
  exact ((hnew.addAll hdraft).close (of_orMalformed hitems)).close.resolve (of_orMalformed h)

end Toml

end VariantFold
