/-
Configurations laid over each other.

The configuration of a run is made of files and single settings.  For each key, the last setting of it counts,
or else the last file that has it (`configured`); the key with the environment's mark is asked for only if
there is neither.  The entries of a file may be taken in any order.
-/
import Mathlib.Data.List.Forall2
import VariantFold.CommandLine.Run
import VariantFold.Proofs.KeyMaps
import VariantFold.Proofs.Resolve

namespace VariantFold

namespace Variants

variable {layers layers' : List Variants} {settings settings' : List (String × Scalar)} {key : String}

lemma lookup_eq (variants : Variants) (key : String) :
    variants.lookup key = (variants.get? key).or (variants.get? (environmentMark ++ key)) := by
  rw [lookup]
  cases variants.get? key <;> rfl

/-- The value of the last setting of a key, or else its value in the last file that has it. -/
def configured (layers : List Variants) (settings : List (String × Scalar)) (key : String) :
    Option Scalar :=
  (lastValue? key settings).or (layers.reverse.findSome? fun layer => layer.get? key)

/-- Files and settings without the key change nothing for it, although they come later. -/
lemma configured_append (hlayers : ∀ layer ∈ layers', layer.get? key = none)
    (hsettings : ∀ e ∈ settings', e.1 ≠ key) :
    configured (layers ++ layers') (settings ++ settings') key = configured layers settings key := by
  have hnone : (layers'.reverse.findSome? fun layer => layer.get? key) = none :=
    List.findSome?_eq_none_iff.2 fun layer hlayer => hlayers layer (List.mem_reverse.1 hlayer)
  rw [configured, lastValue?_append, lastValue?_eq_none_iff.2 hsettings, List.reverse_append,
    List.findSome?_append, hnone]
  rfl

/-- The entries of each file, in some order. -/
abbrev Listings (orders : List (List (String × Scalar))) (layers : List Variants) : Prop :=
  List.Forall₂ (fun order layer => order.Perm layer.entries) orders layers

lemma listings_entries (layers : List Variants) : Listings (layers.map KeyMap.entries) layers :=
  List.forall₂_map_left_iff.2 (List.forall₂_same.2 fun _ _ => List.Perm.refl _)

lemma get?_foldl_insertAll (orders : List (List (String × Scalar))) :
    (orders.foldl KeyMap.insertAll KeyMap.empty).get? key =
      orders.reverse.findSome? (lastValue? key) := by
  induction orders using List.reverseRecOn with
  | nil => rfl
  | append_singleton orders order ih =>
    rw [List.foldl_append, List.foldl_cons, List.foldl_nil, KeyMap.get?_insertAll, ih,
      List.reverse_concat', List.findSome?_cons]
    cases lastValue? key order <;> rfl

/-- Whatever the order within the files, the last file with the key gives its value. -/
lemma Listings.findSome?_eq {orders : List (List (String × Scalar))} (h : Listings orders layers) :
    orders.reverse.findSome? (lastValue? key) = layers.reverse.findSome? fun layer => layer.get? key := by
  induction h with
  | nil => rfl
  | cons hperm _ ih =>
    rw [List.reverse_cons, List.reverse_cons, List.findSome?_append, List.findSome?_append, ih,
      List.findSome?_singleton, List.findSome?_singleton, KeyMap.lastValue?_of_perm _ hperm]

/-- What is configured for a key, whatever the order within the files. -/
lemma Listings.get?_eq {orders : List (List (String × Scalar))} (h : Listings orders layers) :
    ((orders.foldl KeyMap.insertAll KeyMap.empty).insertAll settings).get? key =
      configured layers settings key := by
  rw [KeyMap.get?_insertAll, get?_foldl_insertAll, h.findSome?_eq, configured]

lemma get?_layered (layers : List Variants) (settings : List (String × Scalar)) (key : String) :
    (layered layers settings).get? key = configured layers settings key := by
  rw [← (listings_entries layers).get?_eq, List.foldl_map]
  rfl

lemma lookup_layered (layers : List Variants) (settings : List (String × Scalar)) (key : String) :
    (layered layers settings).lookup key =
      (configured layers settings key).or (configured layers settings (environmentMark ++ key)) := by
  rw [lookup_eq, get?_layered, get?_layered]

end Variants

namespace CommandLine

open Variants

/-- The file holds the configuration. -/
def Input.Holds (input : Input) (path : String) (layer : Variants) : Prop :=
  Variants.ofFile path (input.file path).toOption = .ok layer

variable {input : Input} {files : List String} {layers : List Variants}

lemma readLayers_ok (h : List.Forall₂ input.Holds files layers) (log : Log) :
    ∃ log', readLayers input files log = .ok layers log' := by
  induction h generalizing log with
  | nil => exact ⟨log, rfl⟩
  | @cons path layer files layers hpath _ ih =>
    obtain ⟨note, hnote⟩ : ∃ note : Log → Log,
        note = fun log => log.note .debug (toString layer.size ++ " variant(s) in " ++ path) := ⟨_, rfl⟩
    have hfirst : (modify note : Run Unit) log = .ok () (note log) := rfl
    obtain ⟨log', hrest⟩ := ih (note log)
    refine ⟨log', ?_⟩
    rw [Input.Holds] at hpath
    rw [readLayers, hpath]
    dsimp only
    rw [← hnote, bind_ok hfirst, bind_ok hrest]
    rfl

lemma readVariants_ok (h : List.Forall₂ input.Holds files layers) (settings : List (String × Scalar))
    (log : Log) : ∃ log', readVariants input files settings log = .ok (layered layers settings) log' := by
  obtain ⟨log', hlayers⟩ := readLayers_ok h log
  rw [readVariants, bind_ok hlayers]
  exact ⟨_, rfl⟩

/-- Files that can be used and settings make a configuration.  For each key it has the value of the last
setting of it, or else the value in the last file that has it, or else what the same rule gives for the key with the
environment's mark.  The entries of the files may be taken in any order, and if a key itself is configured,
then what comes later without it, whatever it has under the marked key, leaves its value alone. -/
theorem readVariants_lookup (hfiles : List.Forall₂ input.Holds files layers)
    (settings : List (String × Scalar)) (log : Log) :
    ∃ variants log', readVariants input files settings log = .ok variants log' ∧
      (∀ key, variants.lookup key =
        (configured layers settings key).or (configured layers settings (environmentMark ++ key))) ∧
      (∀ orders, List.Forall₂ (fun order layer => order.Perm layer.entries) orders layers →
        (orders.foldl KeyMap.insertAll KeyMap.empty).insertAll settings = variants) ∧
      ∀ key value, configured layers settings key = some value →
        ∀ files' layers' settings', List.Forall₂ input.Holds files' layers' →
          (∀ layer ∈ layers', layer.get? key = none) → (∀ e ∈ settings', e.1 ≠ key) →
          ∃ variants' log'',
            readVariants input (files ++ files') (settings ++ settings') log = .ok variants' log'' ∧
            variants'.lookup key = some value := by
  obtain ⟨log', hrun⟩ := readVariants_ok hfiles settings log
  refine ⟨_, log', hrun, lookup_layered layers settings, fun orders horders => ?_, ?_⟩
  · refine KeyMap.ext_get? fun key => ?_
    rw [Listings.get?_eq horders, get?_layered]
  · intro key value hvalue files' layers' settings' hfiles' hlayers' hsettings'
    obtain ⟨log'', hrun'⟩ :=
      readVariants_ok (List.rel_append hfiles hfiles') (settings ++ settings') log
    refine ⟨_, log'', hrun', ?_⟩
    rw [lookup_layered, configured_append hlayers' hsettings', hvalue]
    rfl

lemma Input.holds_of_entries {path : String} {layer : Variants}
    (h : (Variants.ofFile path (input.file path).toOption).toOption.map KeyMap.entries =
      some layer.entries) : input.Holds path layer := by
  rw [Input.Holds]
  cases hfile : Variants.ofFile path (input.file path).toOption with
  | error e =>
    rw [hfile] at h
    exact absurd h (by simp [Except.toOption])
  | ok layer' =>
    rw [hfile] at h
    rw [KeyMap.ext (Option.some_injective _ h)]

/-- Two files, of which each has one of two keys and the other key with the environment's mark. -/
def crossedFiles : Input where
  standard := ""
  file path :=
    if path = "base.json" then .ok "\x7b\"mode\": \"fast\", \"<env>:level\": 1\x7d"
    else .ok "level = 2\n\"<env>:mode\" = \"slow\"\n"

/-- The marked key of the second file and that of a later setting do not count, as the first file has the
key itself. -/
theorem readVariants_lookup_crossedFiles :
    ∃ variants log, readVariants crossedFiles ["base.json", "local.toml"]
        [("level", .int 3), ("level", .int 4)] {} = .ok variants log ∧
      variants.lookup "mode" = some (.string "fast") ∧ variants.lookup "level" = some (.int 4) ∧
      variants.lookup "debug" = none ∧
      ∃ variants' log', readVariants crossedFiles ["base.json", "local.toml"]
          [("level", .int 3), ("level", .int 4), ("<env>:mode", .string "off")] {} = .ok variants' log' ∧
        variants'.lookup "mode" = some (.string "fast") := by
  have hfiles : List.Forall₂ crossedFiles.Holds ["base.json", "local.toml"]
      [KeyMap.ofList [("<env>:level", .int 1), ("mode", .string "fast")],
        KeyMap.ofList [("<env>:mode", .string "slow"), ("level", .int 2)]] :=
    .cons (Input.holds_of_entries (by decide +kernel))
      (.cons (Input.holds_of_entries (by decide +kernel)) .nil)
  obtain ⟨variants, log, hrun, hlookup, -, hlater⟩ :=
    readVariants_lookup hfiles [("level", .int 3), ("level", .int 4)] {}
  refine ⟨variants, log, hrun, ?_, ?_, ?_, ?_⟩
  · rw [hlookup]
    decide +kernel
  · rw [hlookup]
    decide +kernel
  · rw [hlookup]
    decide +kernel
  · exact hlater "mode" (.string "fast") (by decide +kernel) [] [] [("<env>:mode", .string "off")] .nil
      (by simp) (by simp)

end CommandLine

end VariantFold
