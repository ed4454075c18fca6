/-
Flat tables.

The scalars in a table and in the tables inside are configured under their paths, joined by dots.  Different
paths can join to one key, since keys may have dots in them.  The scalars are taken in the order of the table,
so of those with one key the last counts.  As keys stand in order, it is the one whose path has the greatest
segment where it parts from the path of another (`Wins`); the lines of the document play no part.

Segments are compared by their bytes, which is the same as by their characters (`Text.bytes_lt_iff`).  The main
result is `ofTable_flattens`.
-/
import Mathlib
import VariantFold.Proofs.ReadTables
import VariantFold.Variants.File

namespace VariantFold

/-! ### The order of bytes -/

namespace Text

/-- The bytes of a text. -/
def bytes (s : String) : List UInt8 := s.toUTF8.data.toList

lemma bytes_eq (s : String) : bytes s = s.toList.flatMap String.utf8EncodeChar := by
  rw [bytes, String.toUTF8, ← String.utf8Encode_toList, List.utf8Encode, List.data_toByteArray]

/-- The bytes of a character come before those of a greater one, whatever follows. -/
lemma encode_append_lt {c d : Char} (h : c < d) (l l' : List UInt8) :
    String.utf8EncodeChar c ++ l < String.utf8EncodeChar d ++ l' := by
  have hlt : c.val.toNat < d.val.toNat := h
  have hd : d.val.toNat < 1114112 := by
    rcases d.valid with hd | hd
    · omega
    · omega
  -- the first byte tells how many there are; the rest of the code point is written to base 64
  have htwo : ∀ n, n / 4096 = n / 64 / 64 := fun n => (Nat.div_div_eq_div_mul n 64 64).symm
  have hthree : ∀ n, n / 262144 = n / 64 / 64 / 64 := fun n => by
    rw [Nat.div_div_eq_div_mul, Nat.div_div_eq_div_mul]
  rw [String.utf8EncodeChar.eq_def, String.utf8EncodeChar.eq_def]
  generalize c.val.toNat = v at hlt ⊢
  generalize d.val.toNat = w at hlt hd ⊢
  dsimp only
  split_ifs
  all_goals
    simp only [List.cons_append, List.nil_append, List.cons_lt_cons_iff, UInt8.lt_iff_toNat_lt,
      ← UInt8.toNat_inj, UInt8.toNat_ofNat', htwo, hthree]
    clear htwo hthree
    omega

lemma flatMap_encode_lt {cs ds : List Char} (h : cs < ds) :
    cs.flatMap String.utf8EncodeChar < ds.flatMap String.utf8EncodeChar := by
  induction cs generalizing ds with
  | nil =>
    rcases ds with _ | ⟨d, ds⟩
    · exact absurd h (List.lt_irrefl [])
    · rw [List.flatMap_nil, List.flatMap_cons]
      have hne : String.utf8EncodeChar d ≠ [] := by
        rw [String.utf8EncodeChar.eq_def]
        dsimp only
        split_ifs <;> simp
      obtain ⟨b, bs, hb⟩ := List.exists_cons_of_ne_nil hne
      rw [hb, List.cons_append]
      exact List.nil_lt_cons b _
  | cons c cs ih =>
    rcases ds with _ | ⟨d, ds⟩
    · exact absurd h (List.not_lt_nil _)
    · rw [List.flatMap_cons, List.flatMap_cons]
      rcases List.cons_lt_cons_iff.1 h with hlt | ⟨rfl, hlt⟩
      · exact encode_append_lt hlt _ _
      · exact List.append_left_lt (ih hlt)

/-- Texts stand in the order of their bytes. -/
lemma bytes_lt_iff {a b : String} : bytes a < bytes b ↔ a < b := by
  have hmono : ∀ {a b : String}, a < b → bytes a < bytes b := by
    intro a b h
    rw [bytes_eq, bytes_eq]
    exact flatMap_encode_lt h
  constructor
  · intro h
    by_contra hnot
    by_cases hlt : b < a
    · exact List.lt_asymm h (hmono hlt)
    · obtain rfl := String.le_antisymm (String.not_lt.1 hlt) (String.not_lt.1 hnot)
      exact List.lt_irrefl _ h
  · exact hmono

end Text

/-! ### Paths -/

namespace Toml

variable {path path' : List String} {table table' : Table} {v w : Value} {s : Scalar}

/-- The value at the end of a path. -/
def Value.at? : List String → Value → Option Value
  | [], v => some v
  | key :: path, .table entries => (findEntry key entries).bind (Value.at? path)
  | _ :: _, _ => none

/-- The scalar at the end of a path. -/
def scalarAt? (table : Table) (path : List String) : Option Scalar :=
  ((Value.table table).at? path).bind Value.scalar?

/-- Where two paths part, the segment of the first comes first by its bytes. -/
def PartsBefore (path path' : List String) : Prop :=
  ∃ common a b rest rest', path = common ++ a :: rest ∧ path' = common ++ b :: rest' ∧
    Text.bytes a < Text.bytes b

lemma PartsBefore.lt (h : PartsBefore path path') : path < path' := by
  obtain ⟨common, a, b, rest, rest', rfl, rfl, hlt⟩ := h
  exact List.append_left_lt (List.cons_lt_cons_iff.2 (Or.inl (Text.bytes_lt_iff.1 hlt)))

lemma PartsBefore.asymm (h : PartsBefore path path') : ¬ PartsBefore path' path :=
  fun h' => List.lt_asymm h.lt h'.lt

lemma PartsBefore.ne (h : PartsBefore path path') : path ≠ path' := by
  rintro rfl
  exact h.asymm h

/-! ### Leaves -/

lemma Value.IsLeaf.eq_of_at? (h : v.IsLeaf) (hat : v.at? path = some w) : path = [] ∧ w = v := by
  cases path with
  | nil => exact ⟨rfl, (Option.some_injective _ hat).symm⟩
  | cons key path =>
    cases v with
    | table entries => exact absurd rfl (h entries)
    | _ => exact absurd hat (by simp [Value.at?])

lemma Value.IsLeaf.leaves (h : v.IsLeaf) : v.leaves path = [(path, v)] := by
  cases v with
  | table entries => exact absurd rfl (h entries)
  | _ => rw [Value.leaves]

lemma leaves_eq (entries : List (String × Value)) :
    Toml.leaves path entries = entries.flatMap fun e => e.2.leaves (path ++ [e.1]) := by
  induction entries with
  | nil => rw [Toml.leaves, List.flatMap_nil]
  | cons e entries ih => rw [Toml.leaves, ih, List.flatMap_cons]

/-- The leaves are the values at the ends of paths that are no tables. -/
lemma Value.Ordered.mem_leaves (h : v.Ordered) : (path', w) ∈ v.leaves path ↔
    ∃ rest, path' = path ++ rest ∧ v.at? rest = some w ∧ w.IsLeaf := by
  induction h generalizing path with
  | leaf h =>
    rw [h.leaves, List.mem_singleton, Prod.mk.injEq]
    constructor
    · rintro ⟨rfl, rfl⟩
      exact ⟨[], (List.append_nil _).symm, by rw [Value.at?], h⟩
    · rintro ⟨rest, rfl, hat, -⟩
      obtain ⟨rfl, rfl⟩ := h.eq_of_at? hat
      exact ⟨List.append_nil _, rfl⟩
  | @table entries sorted inside ih =>
    rw [Value.leaves, leaves_eq, List.mem_flatMap]
    constructor
    · rintro ⟨⟨key, v⟩, hmem, hleaf⟩
      obtain ⟨rest, rfl, hat, hw⟩ := (ih (key, v) hmem).1 hleaf
      refine ⟨key :: rest, by simp, ?_, hw⟩
      rw [Value.at?, sorted.findEntry_eq_some_iff.2 hmem]
      exact hat
    · rintro ⟨rest, rfl, hat, hw⟩
      cases rest with
      | nil => exact absurd (Option.some_injective _ hat).symm (hw entries)
      | cons key rest =>
        rw [Value.at?] at hat
        obtain ⟨v, hfind, hat⟩ := Option.bind_eq_some_iff.1 hat
        have hmem := sorted.findEntry_eq_some_iff.1 hfind
        exact ⟨(key, v), hmem, (ih (key, v) hmem).2 ⟨rest, by simp, hat, hw⟩⟩

/-- Leaves stand in the order of their paths. -/
lemma Value.Ordered.pairwise_leaves (h : v.Ordered) :
    (v.leaves path).Pairwise fun l m => PartsBefore l.1 m.1 := by
  induction h generalizing path with
  | leaf h =>
    rw [h.leaves]
    exact List.pairwise_singleton _ _
  | @table entries sorted inside ih =>
    rw [Value.leaves, leaves_eq, List.pairwise_flatMap]
    refine ⟨fun e he => ih e he, ?_⟩
    -- leaves of different entries part at the keys of the entries
    refine List.Pairwise.imp_of_mem (fun {e e'} he he' hlt => ?_) sorted
    rintro ⟨p, w⟩ hw ⟨p', w'⟩ hw'
    obtain ⟨rest, rfl, -⟩ := (inside e he).mem_leaves.1 hw
    obtain ⟨rest', rfl, -⟩ := (inside e' he').mem_leaves.1 hw'
    exact ⟨path, e.1, e'.1, rest, rest', by simp, by simp, Text.bytes_lt_iff.2 hlt⟩

lemma leaves_table (table : Table) : Toml.leaves path table = (Value.table table).leaves path := by
  rw [Value.leaves]

lemma Ordered.mem_leaves (h : Ordered table) : (path, v) ∈ Toml.leaves [] table ↔
    (Value.table table).at? path = some v ∧ v.IsLeaf := by
  rw [leaves_table, Value.Ordered.mem_leaves h]
  simp

lemma Ordered.pairwise_leaves (h : Ordered table) :
    (Toml.leaves [] table).Pairwise fun l m => PartsBefore l.1 m.1 := by
  rw [leaves_table]
  exact Value.Ordered.pairwise_leaves h

/-- Nothing but the leaves decides about their order. -/
lemma Ordered.leaves_eq_leaves (h : Ordered table) (h' : Ordered table')
    (hsame : ∀ path v, v.IsLeaf →
      ((Value.table table').at? path = some v ↔ (Value.table table).at? path = some v)) :
    Toml.leaves [] table' = Toml.leaves [] table := by
  have hnodup : ∀ {table}, Ordered table → (Toml.leaves [] table).Nodup := by
    intro table h
    refine h.pairwise_leaves.imp fun {l m} hlm => ?_
    rintro rfl
    exact hlm.ne rfl
  have hperm : (Toml.leaves [] table').Perm (Toml.leaves [] table) := by
    refine (List.perm_ext_iff_of_nodup (hnodup h') (hnodup h)).2 ?_
    rintro ⟨path, v⟩
    rw [h.mem_leaves, h'.mem_leaves]
    exact and_congr_left fun hv => hsame path v hv
  refine hperm.eq_of_pairwise (fun l m _ _ hlm hml => ?_) h'.pairwise_leaves h.pairwise_leaves
  exact absurd hml hlm.asymm

/-! ### Scalars -/

/-- The scalars in a table and in the tables inside, each with the path to it, in order. -/
def scalars (table : Table) : List (List String × Scalar) :=
  (Toml.leaves [] table).filterMap fun leaf => leaf.2.scalar?.map fun s => (leaf.1, s)

lemma Value.isSome_scalar?_iff (v : Value) : v.scalar?.isSome ↔
    v.IsLeaf ∧ (∀ items, v ≠ .array items) ∧ ∀ text, v ≠ .datetime text := by
  cases v <;> simp [Value.scalar?, Value.IsLeaf]

lemma Ordered.mem_scalars (h : Ordered table) :
    (path, s) ∈ scalars table ↔ scalarAt? table path = some s := by
  rw [scalars, List.mem_filterMap, scalarAt?, Option.bind_eq_some_iff]
  constructor
  · rintro ⟨⟨p, v⟩, hmem, hs⟩
    obtain ⟨s', hv, heq⟩ := Option.map_eq_some_iff.1 hs
    obtain ⟨rfl, rfl⟩ := Prod.mk.inj heq
    exact ⟨v, (h.mem_leaves.1 hmem).1, hv⟩
  · rintro ⟨v, hat, hv⟩
    have hleaf : v.IsLeaf := (v.isSome_scalar?_iff.1 (by rw [hv]; rfl)).1
    exact ⟨(path, v), h.mem_leaves.2 ⟨hat, hleaf⟩, by rw [hv]; rfl⟩

lemma Ordered.pairwise_scalars (h : Ordered table) :
    (scalars table).Pairwise fun l m => PartsBefore l.1 m.1 := by
  rw [scalars, List.pairwise_filterMap]
  refine h.pairwise_leaves.imp fun {l m} hlm a ha b hb => ?_
  obtain ⟨s, -, rfl⟩ := Option.map_eq_some_iff.1 ha
  obtain ⟨t, -, rfl⟩ := Option.map_eq_some_iff.1 hb
  exact hlm

end Toml

/-! ### Settings -/

namespace Variants

variable {key : String} {path path' : List String} {table : Toml.Table} {s : Scalar}
  {variants : Variants}

/-- The settings that the scalars of a table make. -/
def tableSettings (table : Toml.Table) : List (String × Scalar) :=
  (Toml.scalars table).map fun e => (dottedKey e.1, e.2)

lemma mapM_leafSetting_eq_ok_iff {leaves : List (List String × Toml.Value)}
    {settings : List (String × Scalar)} : leaves.mapM leafSetting = .ok settings ↔
      (∀ leaf ∈ leaves, leaf.2.scalar?.isSome) ∧
        leaves.filterMap (fun leaf => leaf.2.scalar?.map fun s => (dottedKey leaf.1, s)) = settings := by
  induction leaves generalizing settings with
  | nil => simp [pure, Except.pure]
  | cons leaf leaves ih =>
    rw [List.mapM_cons]
    cases hs : leaf.2.scalar? with
    | none => simp [leafSetting, hs, bind, Except.bind]
    | some s =>
      have hleaf : leafSetting leaf = .ok (dottedKey leaf.1, s) := by rw [leafSetting, hs]
      rw [hleaf, List.forall_mem_cons, List.filterMap_cons, hs]
      constructor
      · intro h
        obtain ⟨setting, hsetting, h⟩ := exists_of_bind_ok h
        obtain ⟨rest, hrest, h⟩ := exists_of_bind_ok h
        obtain rfl := Except.ok.inj hsetting
        obtain ⟨hall, rfl⟩ := ih.1 hrest
        exact ⟨⟨rfl, hall⟩, Except.ok.inj h⟩
      · rintro ⟨⟨-, hall⟩, rfl⟩
        have hrest := ih.2 ⟨hall, rfl⟩
        rw [hrest]
        rfl

lemma ofTable_eq_ok_iff : ofTable table = .ok variants ↔
    (∀ leaf ∈ Toml.leaves [] table, leaf.2.scalar?.isSome) ∧
      KeyMap.ofList (tableSettings table) = variants := by
  have hsettings : (Toml.leaves [] table).filterMap
      (fun leaf => leaf.2.scalar?.map fun s => (dottedKey leaf.1, s)) = tableSettings table := by
    rw [tableSettings, Toml.scalars, List.map_filterMap]
    simp only [Option.map_map]
    rfl
  rw [ofTable]
  cases hmap : (Toml.leaves [] table).mapM leafSetting with
  | error e =>
    refine iff_of_false (by simp [Except.map]) ?_
    rintro ⟨hall, -⟩
    rw [mapM_leafSetting_eq_ok_iff.2 ⟨hall, rfl⟩] at hmap
    cases hmap
  | ok settings =>
    obtain ⟨hall, rfl⟩ := mapM_leafSetting_eq_ok_iff.1 hmap
    rw [hsettings]
    exact ⟨fun h => ⟨hall, Except.ok.inj h⟩, fun h => congrArg Except.ok h.2⟩

/-- Only arrays, dates and times are refused. -/
lemma exists_ofTable_iff (h : Toml.Ordered table) : (∃ variants, ofTable table = .ok variants) ↔
    ∀ path v, (Toml.Value.table table).at? path = some v →
      (∀ items, v ≠ .array items) ∧ ∀ text, v ≠ .datetime text := by
  constructor
  · rintro ⟨variants, hok⟩ path v hat
    by_cases hleaf : v.IsLeaf
    · have hsome := (ofTable_eq_ok_iff.1 hok).1 (path, v) (h.mem_leaves.2 ⟨hat, hleaf⟩)
      exact (v.isSome_scalar?_iff.1 hsome).2
    · obtain ⟨entries, rfl⟩ := not_forall_not.1 hleaf
      simp
  · intro hall
    refine ⟨_, ofTable_eq_ok_iff.2 ⟨?_, rfl⟩⟩
    rintro ⟨path, v⟩ hmem
    obtain ⟨hat, hleaf⟩ := h.mem_leaves.1 hmem
    exact v.isSome_scalar?_iff.2 ⟨hleaf, hall path v hat⟩

/-- A scalar that counts for its key: the paths of all others with this key come before its path where they
part. -/
structure Wins (table : Toml.Table) (path : List String) (s : Scalar) : Prop where
  scalar : Toml.scalarAt? table path = some s
  greatest : ∀ other t, Toml.scalarAt? table other = some t → other ≠ path →
    dottedKey other = dottedKey path → Toml.PartsBefore other path

lemma get?_of_ofTable (hok : ofTable table = .ok variants) :
    variants.get? key = lastValue? key (tableSettings table) := by
  rw [← (ofTable_eq_ok_iff.1 hok).2, KeyMap.ofList, KeyMap.get?_insertAll, KeyMap.get?_empty,
    Option.or_none]

/-- The last of the scalars with one key is the one that wins. -/
lemma lastValue?_tableSettings_iff (h : Toml.Ordered table) :
    lastValue? key (tableSettings table) = some s ↔ ∃ path, Wins table path s ∧ dottedKey path = key := by
  have hpairwise := h.pairwise_scalars
  rw [lastValue?_eq_some_iff_append]
  constructor
  · rintro ⟨before, after, heq, hafter⟩
    obtain ⟨early, late, hlist, rfl, hlate⟩ := List.map_eq_append_iff.1 heq
    obtain ⟨⟨path, t⟩, late, rfl, hpath, rfl⟩ := List.map_eq_cons_iff.1 hlate
    obtain ⟨rfl, rfl⟩ := Prod.mk.inj hpath
    rw [hlist, List.pairwise_append] at hpairwise
    refine ⟨path, ⟨h.mem_scalars.1 (by rw [hlist]; simp), fun other t hother hne hkey => ?_⟩, rfl⟩
    have hmem := h.mem_scalars.2 hother
    rw [hlist, List.mem_append, List.mem_cons] at hmem
    rcases hmem with hmem | hmem | hmem
    · exact hpairwise.2.2 (other, t) hmem (path, _) List.mem_cons_self
    · exact absurd (Prod.mk.inj hmem).1 hne
    · exact absurd hkey (hafter (dottedKey other, t) (List.mem_map_of_mem hmem))
  · rintro ⟨path, hwins, rfl⟩
    obtain ⟨early, late, hlist⟩ := List.append_of_mem (h.mem_scalars.2 hwins.scalar)
    refine ⟨_, _, by rw [tableSettings, hlist, List.map_append, List.map_cons], fun e he hkey => ?_⟩
    obtain ⟨⟨other, t⟩, hmem, rfl⟩ := List.mem_map.1 he
    rw [hlist, List.pairwise_append, List.pairwise_cons] at hpairwise
    have hparts : Toml.PartsBefore path other := hpairwise.2.1.1 (other, t) hmem
    have hother : Toml.scalarAt? table other = some t := h.mem_scalars.1 (by rw [hlist]; simp [hmem])
    exact hparts.asymm (hwins.greatest other t hother hparts.ne.symm hkey)

/-- For each key of a scalar some scalar wins. -/
lemma exists_wins (h : Toml.Ordered table) (hat : Toml.scalarAt? table path = some s) :
    ∃ path' t, Wins table path' t ∧ dottedKey path' = dottedKey path := by
  have hmem : (dottedKey path, s) ∈ tableSettings table := List.mem_map_of_mem (h.mem_scalars.2 hat)
  cases hlast : lastValue? (dottedKey path) (tableSettings table) with
  | none => exact absurd rfl (lastValue?_eq_none_iff.1 hlast _ hmem)
  | some t =>
    obtain ⟨path', hwins, hkey⟩ := (lastValue?_tableSettings_iff h).1 hlast
    exact ⟨path', t, hwins, hkey⟩

/-- A path of several segments has its first segment before its key. -/
lemma partsBefore_dottedKey (hne : path ≠ []) (hne' : path ≠ [dottedKey path]) :
    Toml.PartsBefore path [dottedKey path] := by
  obtain ⟨a, rest, rfl⟩ := List.exists_cons_of_ne_nil hne
  cases rest with
  | nil => exact absurd (by simp [dottedKey]) hne'
  | cons b rest =>
    refine ⟨[], a, _, b :: rest, [], rfl, rfl, Text.bytes_lt_iff.2 ?_⟩
    have hkey : dottedKey (a :: b :: rest) = a ++ "." ++ dottedKey (b :: rest) :=
      String.intercalate_cons_cons
    have hlt : a.toList ++ [] < a.toList ++ '.' :: (dottedKey (b :: rest)).toList :=
      List.append_left_lt (List.nil_lt_cons _ _)
    rw [hkey]
    show a.toList < (a ++ "." ++ dottedKey (b :: rest)).toList
    rw [String.toList_append, String.toList_append, List.append_assoc]
    rwa [List.append_nil] at hlt

lemma wins_singleton (hat : Toml.scalarAt? table [key] = some s) : Wins table [key] s := by
  refine ⟨hat, fun other t hother hne hkey => ?_⟩
  obtain rfl : dottedKey other = key := by simpa [dottedKey] using hkey
  refine partsBefore_dottedKey ?_ hne
  rintro rfl
  exact absurd hother (by simp [Toml.scalarAt?, Toml.Value.at?, Toml.Value.scalar?])

/-- Of the values in a table only scalars can be configured.  If there are no others, the keys are those of the
scalars, and of scalars with one key the one counts whose path has the greatest segment where it parts from the
others.  So it does not matter how a document is laid out. -/
theorem ofTable_flattens {table : Toml.Table} (h : Toml.Ordered table) :
    ((∃ variants, ofTable table = .ok variants) ↔
        ∀ path v, (Toml.Value.table table).at? path = some v →
          (∀ items, v ≠ .array items) ∧ ∀ text, v ≠ .datetime text) ∧
      (∀ variants, ofTable table = .ok variants →
        (∀ key, (∃ s, variants.get? key = some s) ↔
          ∃ path s, Toml.scalarAt? table path = some s ∧ dottedKey path = key) ∧
        (∀ path s, Toml.scalarAt? table path = some s →
          (∀ other t, Toml.scalarAt? table other = some t → dottedKey other = dottedKey path →
            other = path) → variants.get? (dottedKey path) = some s) ∧
        (∀ key s, variants.get? key = some s ↔ ∃ path, Wins table path s ∧ dottedKey path = key) ∧
        ∀ key s, Toml.scalarAt? table [key] = some s → variants.get? key = some s) ∧
      ∀ text table', Toml.read text = .ok table' →
        (∀ path v, v.IsLeaf →
          ((Toml.Value.table table').at? path = some v ↔ (Toml.Value.table table).at? path = some v)) →
        ofToml text = ofTable table := by
  refine ⟨exists_ofTable_iff h, fun variants hok => ?_, fun text table' hread hsame => ?_⟩
  · have hget : ∀ key s, variants.get? key = some s ↔ ∃ path, Wins table path s ∧ dottedKey path = key := by
      intro key s
      rw [get?_of_ofTable hok, lastValue?_tableSettings_iff h]
    refine ⟨fun key => ⟨?_, ?_⟩, fun path s hat honly => ?_, hget, fun key s hat => ?_⟩
    · rintro ⟨s, hs⟩
      obtain ⟨path, hwins, hkey⟩ := (hget key s).1 hs
      exact ⟨path, s, hwins.scalar, hkey⟩
    · rintro ⟨path, s, hat, rfl⟩
      obtain ⟨path', t, hwins, hkey⟩ := exists_wins h hat
      exact ⟨t, (hget _ t).2 ⟨path', hwins, hkey⟩⟩
    · refine (hget _ s).2 ⟨path, ⟨hat, fun other t hother hne hkey => ?_⟩, rfl⟩
      exact absurd (honly other t hother hkey) hne
    · exact (hget key s).2 ⟨[key], wins_singleton hat, by simp [dottedKey]⟩
  · have heq := h.leaves_eq_leaves (Toml.ordered_of_read hread) hsame
    rw [ofToml, hread]
    show ofTable table' = ofTable table
    rw [ofTable, ofTable, heq]

/-- A key in quotes counts, not the table whose path it spells, also in the first line. -/
theorem ofTable_flattens_quoted : ∃ table variants, Toml.Ordered table ∧
    Toml.read "a.b = 1\n\"a.b\" = 2" = .ok table ∧ Toml.scalarAt? table ["a", "b"] = some (.int 1) ∧
    ofTable table = .ok variants ∧ ofToml "\"a.b\" = 2\na.b = 1" = .ok variants ∧
    variants.get? "a.b" = some (.int 2) := by
  have hlast : Toml.read "a.b = 1\n\"a.b\" = 2" =
      .ok [("a", .table [("b", .integer 1)]), ("a.b", .integer 2)] := by cbv
  have hfirst : Toml.read "\"a.b\" = 2\na.b = 1" =
      .ok [("a", .table [("b", .integer 1)]), ("a.b", .integer 2)] := by cbv
  have hordered := Toml.ordered_of_read hlast
  obtain ⟨-, hok, hlayout⟩ := ofTable_flattens hordered
  refine ⟨_, _, hordered, hlast, rfl, rfl, ?_, ?_⟩
  · exact hlayout _ _ hfirst fun _ _ _ => Iff.rfl
  · exact (hok _ rfl).2.2.2 "a.b" (.int 2) rfl

end Variants

end VariantFold
