/- FunWithDragonflyDB/Cdc/Flush
   digest: Two passes and chunked pipelines leave what one pass over the payload would. -/

import FunWithDragonflyDB.Lib.HashStore
import FunWithDragonflyDB.Cdc.Mirror

set_option autoImplicit false
set_option relaxedAutoImplicit false

namespace FunWithDragonflyDB.Cdc.Flush

open Lib.Chunks Lib.HashStore
open Fqdn.Strings (Text)
open Listener Items Acknowledge Mirror

section Pipelines

/-- The chunks of the second pass: the writes from `start` up to `end`, 200 at a time. -/
def pipelines (writes : List PendingWrite) : List (List PendingWrite) := slices maxBatchSize writes

/-- The handler executes these pipelines, whatever becomes of each. -/
theorem handle_pipelines (std : GoStd) (outcome : ℕ → ExecOutcome) (payload : List PayloadItem)
    (cache : Cache) : (handle std outcome (.decoded payload) cache).2 =
      ((pipelines (toWrite std payload)).zipIdx.flatMap fun c =>
        execChunk (outcome c.2) c.1).foldl jsonSet cache := by
  rw [pipelines, slices_eq]
  rfl

theorem length_of_mem_pipelines {writes chunk : List PendingWrite} (h : chunk ∈ pipelines writes) :
    chunk.length ≤ maxBatchSize := by
  rw [pipelines, slices_eq] at h
  exact length_le_of_mem_chunksFrom h

theorem pipelines_flatten (writes : List PendingWrite) : (pipelines writes).flatten = writes := by
  rw [pipelines, slices_eq, chunks_flatten (by decide)]

end Pipelines

section Naive

/-- Going through the payload once, in order: an item that asks for a document has it set, and any
other item is passed over. -/
inductive OnePass (std : GoStd) : List PayloadItem → Cache → Cache → Prop
  | done {cache : Cache} : OnePass std [] cache cache
  | set {item : PayloadItem} {payload : List PayloadItem} {key : Text} {doc : Doc}
      {cache final : Cache} (hasks : Asks std item key doc)
      (hrest : OnePass std payload (Function.update cache key (std.marshal doc)) final) :
      OnePass std (item :: payload) cache final
  | skip {item : PayloadItem} {payload : List PayloadItem} {cache final : Cache}
      (hnone : ∀ key doc, ¬Asks std item key doc) (hrest : OnePass std payload cache final) :
      OnePass std (item :: payload) cache final

variable {std : GoStd}

theorem store_of_asks {item : PayloadItem} {key : Text} {doc : Doc} (h : Asks std item key doc)
    (hmarshal : (std.marshal doc).isSome) (cache : Cache) :
    store std item cache = Function.update cache key (std.marshal doc) := by
  obtain ⟨pre, after, id, hid, rfl, rfl⟩ := asks_iff.mp h
  obtain ⟨json, hjson⟩ := Option.isSome_iff_exists.mp hmarshal
  simp [store, prepare, hid, hjson, jsonSet]

theorem store_of_not_asks {item : PayloadItem} (h : ∀ key doc, ¬Asks std item key doc)
    (cache : Cache) : store std item cache = cache := by
  have hid : identify std item = none := by
    rw [Option.eq_none_iff_forall_ne_some]
    rintro ⟨pre, after, id⟩ he
    exact h _ _ (asks_iff.mpr ⟨pre, after, id, he, rfl, rfl⟩)
  simp [store, prepare, hid]

/-- The handler's share of each item, one after the other, is a single pass. -/
theorem onePass_iff {payload : List PayloadItem} (hmarshal : Encodes std payload)
    {cache final : Cache} : OnePass std payload cache final ↔
      final = payload.foldl (fun cache item => store std item cache) cache := by
  constructor
  · intro h
    induction h with
    | done => rfl
    | set hasks hrest ih =>
      have hitem := hmarshal _ List.mem_cons_self _ _ hasks
      rw [ih fun i hi => hmarshal i (List.mem_cons_of_mem _ hi), List.foldl_cons,
        store_of_asks hasks hitem]
    | skip hnone hrest ih =>
      rw [ih fun i hi => hmarshal i (List.mem_cons_of_mem _ hi), List.foldl_cons,
        store_of_not_asks hnone]
  · rintro rfl
    induction payload generalizing cache with
    | nil => exact .done
    | cons item payload ih =>
      have hrest : Encodes std payload := fun i hi => hmarshal i (List.mem_cons_of_mem _ hi)
      rw [List.foldl_cons]
      by_cases hasks : ∃ key doc, Asks std item key doc
      · obtain ⟨key, doc, hasks⟩ := hasks
        have hitem := hmarshal item List.mem_cons_self key doc hasks
        rw [store_of_asks hasks hitem]
        exact .set hasks (ih hrest)
      · simp only [not_exists] at hasks
        rw [store_of_not_asks hasks]
        exact .skip hasks (ih hrest)

end Naive

section Again

/-- A pending write as a command on a store of one field a key. -/
def command (w : PendingWrite) : Command Text Unit Text := .hset w.key () w.itemJSON

theorem foldl_jsonSet (writes : List PendingWrite) (cache : Cache) (key : Text) :
    writes.foldl jsonSet cache key = runAll (writes.map command) (fun k _ => cache k) key () := by
  induction writes generalizing cache with
  | nil => rfl
  | cons w writes ih =>
    have hset : (fun k (_ : Unit) => jsonSet cache w k) = (command w).apply fun k _ => cache k := by
      ext1 k
      ext1 u
      by_cases hk : k = w.key
      · rw [Command.apply_at (show (command w).At k u from ⟨hk.symm, rfl⟩), hk]
        exact Function.update_self ..
      · rw [Command.apply_off (show ¬(command w).At k u from fun h => hk h.1.symm)]
        exact Function.update_of_ne hk ..
    rw [List.foldl_cons, ih, hset]
    rfl

theorem foldl_jsonSet_again (writes : List PendingWrite) (cache : Cache) :
    writes.foldl jsonSet (writes.foldl jsonSet cache) = writes.foldl jsonSet cache := by
  ext1 key
  have hfirst : (fun k (_ : Unit) => writes.foldl jsonSet cache k) =
      runAll (writes.map command) fun k _ => cache k := by
    ext1 k
    ext1 u
    exact foldl_jsonSet writes cache k
  rw [foldl_jsonSet, hfirst, runAll_replay (List.Subset.refl _), ← foldl_jsonSet]

end Again

section Refines

variable {std : GoStd}

/-- One key is written twice, with an item of an unknown topic in between. -/
def repeatedKey : List PayloadItem :=
  [userItem "rome".toList "7".toList, ⟨.null, [], "trips".toList⟩,
    userItem "rome".toList "7".toList]

end Refines

end FunWithDragonflyDB.Cdc.Flush
