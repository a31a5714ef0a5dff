import TwoWayPeg.Constants.Presets
import TwoWayPeg.Storage.Persistence

/-!
# How a save ends

A save goes through the keys in their order. Under each of them it looks at the bytes that are there,
and puts or deletes if they are not the wanted ones. It ends at the first of these accesses that is
refused, and then the keys before that one are done and all else is as it was. Since what is done is
not undone, a save that is repeated until it is not refused anything leaves what the first one would
have left.
-/

namespace TwoWayPeg

namespace StorageKey

theorem name_injective {key other : StorageKey} (same : key.name = other.name) : key = other := by
  have distinct : ∀ key ∈ all, ∀ other ∈ all, key.name = other.name → key = other := by
    decide +kernel
  exact distinct key (mem_all key) other (mem_all other) same

theorem bytes_injective {key other : StorageKey} (same : key.bytes = other.bytes) :
    key = other := by
  apply name_injective
  apply String.toByteArray_inj.1
  exact ByteArray.ext (Array.toList_inj.1 same)

theorem nodup_all : all.Nodup := by decide

/-- The keys that are saved before a key. -/
def earlier (key : StorageKey) : List StorageKey := all.takeWhile (· ≠ key)

end StorageKey

namespace Store

variable {refused : Outage} {state : State} {store : Store} {key : StorageKey}
  {keys : List StorageKey}

/-- The store with a value under a key, or with nothing there. -/
def write (store : Store) (key : Bytes) : Option Bytes → Store
  | some bytes => store.put key bytes
  | none => store.delete key

@[simp] theorem get?_write_self {key : Bytes} {value? : Option Bytes} :
    (store.write key value?).get? key = value? := by
  cases value? with
  | none => exact get?_delete_self
  | some bytes => exact get?_put_self

theorem get?_write_of_ne {key other : Bytes} {value? : Option Bytes} (differs : other ≠ key) :
    (store.write key value?).get? other = store.get? other := by
  cases value? with
  | none => exact get?_delete_of_ne differs
  | some bytes => exact get?_put_of_ne differs

/-- To write what is there changes nothing. -/
theorem write_eq_self {key : Bytes} {value? : Option Bytes} (present : store.get? key = value?) :
    store.write key value? = store := by
  apply ext_get?
  intro other
  by_cases same : other = key
  · rw [same, get?_write_self, present]
  · exact get?_write_of_ne same

/-- The store with what a state has under some keys. -/
def writeKeys (state : State) : List StorageKey → Store → Store
  | [], store => store
  | key :: rest, store => writeKeys state rest (store.write key.bytes (state.stored? key))

theorem get?_writeKeys_of_notMem {bytes : Bytes} (absent : bytes ∉ keys.map StorageKey.bytes) :
    (store.writeKeys state keys).get? bytes = store.get? bytes := by
  induction keys generalizing store with
  | nil => rfl
  | cons key rest ih =>
    rw [List.map_cons, List.mem_cons, not_or] at absent
    rw [writeKeys, ih absent.2, get?_write_of_ne absent.1]

theorem get?_writeKeys_of_mem (member : key ∈ keys) :
    (store.writeKeys state keys).get? key.bytes = state.stored? key := by
  induction keys generalizing store with
  | nil => cases member
  | cons first rest ih =>
    rw [writeKeys]
    by_cases later : key ∈ rest
    · exact ih later
    · cases (List.mem_cons.1 member).resolve_right later
      -- the later keys have other bytes, so what was written stays
      rw [get?_writeKeys_of_notMem, get?_write_self]
      intro again
      obtain ⟨twin, among, bytes⟩ := List.mem_map.1 again
      exact later (StorageKey.bytes_injective bytes ▸ among)

/-- The accesses that make the bytes under a key those of a state. -/
def accessesAt (store : Store) (state : State) (key : StorageKey) : List Access :=
  if store.get? key.bytes = state.stored? key then [⟨.get, key⟩]
  else [⟨.get, key⟩, ⟨if (state.stored? key).isSome then .put else .delete, key⟩]

/-- The accesses of a save in their order. -/
def accesses (store : Store) (state : State) : List Access :=
  StorageKey.all.flatMap (store.accessesAt state)

theorem key_of_mem_accessesAt {access : Access} (member : access ∈ store.accessesAt state key) :
    access.key = key := by
  unfold accessesAt at member
  split at member
  · cases List.mem_singleton.1 member
    rfl
  · rcases List.mem_cons.1 member with rfl | later
    · rfl
    · cases List.mem_singleton.1 later
      rfl

/-- What is done under other keys does not matter. -/
theorem accessesAt_congr {other : Store} (same : other.get? key.bytes = store.get? key.bytes) :
    other.accessesAt state key = store.accessesAt state key := by
  rw [accessesAt, accessesAt, same]

/-- A key is done, or nothing is done because one of its accesses is refused. -/
theorem saveKey_eq (refused : Outage) (state : State) (store : Store) (key : StorageKey) :
    saveKey refused state store key =
      match (store.accessesAt state key).find? refused with
      | some access => (.error (.storage access), store)
      | none => (.ok (), store.write key.bytes (state.stored? key)) := by
  unfold saveKey accessesAt
  dsimp only
  by_cases present : store.get? key.bytes = state.stored? key
  · rw [if_pos present, if_pos present, write_eq_self present]
    by_cases look : refused ⟨.get, key⟩ = true <;> simp [look]
  rw [if_neg present, if_neg present]
  by_cases look : refused ⟨.get, key⟩ = true
  · simp [look]
  rw [if_neg look, List.find?_cons_of_neg look]
  cases state.stored? key with
  | none => by_cases change : refused ⟨.delete, key⟩ = true <;> simp [change, write]
  | some bytes => by_cases change : refused ⟨.put, key⟩ = true <;> simp [change, write]

/-- The keys before the first refused access are done. -/
theorem saveKeys_eq (distinct : keys.Nodup) (refused : Outage) (state : State) (store : Store) :
    saveKeys refused state keys store =
      match (keys.flatMap (store.accessesAt state)).find? refused with
      | some access =>
        (.error (.storage access), store.writeKeys state (keys.takeWhile (· ≠ access.key)))
      | none => (.ok (), store.writeKeys state keys) := by
  induction keys generalizing store with
  | nil => rfl
  | cons key rest ih =>
    obtain ⟨fresh, distinct⟩ := List.nodup_cons.1 distinct
    rw [saveKeys, saveKey_eq, List.flatMap_cons, List.find?_append]
    cases stop : (store.accessesAt state key).find? refused with
    | some access =>
      have here := key_of_mem_accessesAt (List.mem_of_find?_eq_some stop)
      simp [here, writeKeys]
    | none =>
      -- what was written under the first key is not seen under the others
      have unseen : rest.flatMap ((store.write key.bytes (state.stored? key)).accessesAt state) =
          rest.flatMap (store.accessesAt state) := by
        rw [List.flatMap_def, List.flatMap_def]
        congr 1
        refine List.map_congr_left fun other later => accessesAt_congr (get?_write_of_ne ?_)
        intro same
        exact fresh (StorageKey.bytes_injective same ▸ later)
      simp only [Option.none_or]
      rw [ih distinct, unseen]
      cases later : (rest.flatMap (store.accessesAt state)).find? refused with
      | none => rfl
      | some access =>
        obtain ⟨other, among, found⟩ := List.mem_flatMap.1 (List.mem_of_find?_eq_some later)
        have differs : key ≠ access.key := by
          rw [key_of_mem_accessesAt found]
          exact fun same => fresh (same ▸ among)
        simp [differs, writeKeys]

theorem save_eq (refused : Outage) (state : State) (store : Store) :
    store.save refused state =
      match (store.accesses state).find? refused with
      | some access => (.error (.storage access), store.writeKeys state access.key.earlier)
      | none => (.ok (), store.writeKeys state StorageKey.all) :=
  saveKeys_eq StorageKey.nodup_all refused state store

/-- Nothing keeps a state from being saved if no access is refused. -/
theorem save_granted (state : State) (store : Store) :
    store.save (fun _ => false) state = (.ok (), store.writeKeys state StorageKey.all) := by
  rw [save_eq, List.find?_eq_none.2 (by simp)]

/-- A store that has what a state has under some keys and is as another one elsewhere. -/
structure Updated (state : State) (keys : List StorageKey) (store saved : Store) : Prop where
  written : ∀ key ∈ keys, saved.get? key.bytes = state.stored? key
  kept : ∀ key : StorageKey, key ∉ keys → saved.get? key.bytes = store.get? key.bytes
  others : ∀ bytes, (∀ key : StorageKey, bytes ≠ key.bytes) → saved.get? bytes = store.get? bytes

theorem updated_writeKeys (state : State) (keys : List StorageKey) (store : Store) :
    Updated state keys store (store.writeKeys state keys) := by
  refine ⟨fun key member => get?_writeKeys_of_mem member, fun key absent => ?_,
    fun bytes differs => ?_⟩
  · apply get?_writeKeys_of_notMem
    intro among
    obtain ⟨twin, member, same⟩ := List.mem_map.1 among
    exact absent (StorageKey.bytes_injective same ▸ member)
  · apply get?_writeKeys_of_notMem
    intro among
    obtain ⟨key, _, same⟩ := List.mem_map.1 among
    exact differs key same.symm

/-- What has been written before does not matter once all keys are written. -/
theorem writeKeys_writeKeys (state : State) (keys : List StorageKey) (store : Store) :
    (store.writeKeys state keys).writeKeys state StorageKey.all =
      store.writeKeys state StorageKey.all := by
  apply ext_get?
  intro bytes
  by_cases known : ∃ key : StorageKey, bytes = key.bytes
  · obtain ⟨key, rfl⟩ := known
    rw [get?_writeKeys_of_mem key.mem_all, get?_writeKeys_of_mem key.mem_all]
  · have foreign : ∀ key : StorageKey, bytes ≠ key.bytes := fun key same => known ⟨key, same⟩
    rw [(updated_writeKeys state _ _).others bytes foreign,
      (updated_writeKeys state keys store).others bytes foreign,
      (updated_writeKeys state _ store).others bytes foreign]

/-- The store after saves of a state of which each may have been cut short. -/
def afterSaves (state : State) (outages : List Outage) (store : Store) : Store :=
  outages.foldl (fun store refused => (store.save refused state).2) store

/-- A save that is cut short takes nothing away from one that comes later. -/
theorem writeKeys_afterSaves (state : State) (outages : List Outage) (store : Store) :
    (store.afterSaves state outages).writeKeys state StorageKey.all =
      store.writeKeys state StorageKey.all := by
  induction outages generalizing store with
  | nil => rfl
  | cons refused later ih =>
    have first : (store.save refused state).2.writeKeys state StorageKey.all =
        store.writeKeys state StorageKey.all := by
      rw [save_eq]
      split <;> exact writeKeys_writeKeys state _ store
    exact (ih _).trans first

/-- Once all keys are written, a save only looks at them. -/
theorem accesses_writeKeys (state : State) (store : Store) :
    (store.writeKeys state StorageKey.all).accesses state = StorageKey.all.map (⟨.get, ·⟩) := by
  rw [accesses, List.map_eq_flatMap, List.flatMap_def, List.flatMap_def]
  congr 1
  refine List.map_congr_left fun key member => ?_
  rw [accessesAt, if_pos (get?_writeKeys_of_mem member)]

/-- A save ends with the error of its first access that is refused. The keys before it then hold the
    state, and all else is as it was. However many more saves are cut short, one that is refused
    nothing leaves under the keys of the state what a save to an empty store leaves, and nothing else
    is touched. A save after that one only looks: it ends well whatever puts and deletes are
    refused. -/
theorem save_converges (refused : Outage) (state : State) (store : Store) :
    ∃ cut saved fresh,
      (match (store.accesses state).find? refused with
        | some access => store.save refused state = (.error (.storage access), cut) ∧
            Updated state access.key.earlier store cut
        | none => store.save refused state = (.ok (), cut) ∧
            Updated state StorageKey.all store cut) ∧
      (∀ outages, (cut.afterSaves state outages).save (fun _ => false) state = (.ok (), saved)) ∧
      Updated state StorageKey.all store saved ∧
      Store.save (fun _ => false) state {} = (.ok (), fresh) ∧
      (∀ key : StorageKey, saved.get? key.bytes = fresh.get? key.bytes) ∧
      saved.accesses state = StorageKey.all.map (⟨.get, ·⟩) ∧
      ∀ other : Outage, (∀ key, other ⟨.get, key⟩ = false) →
        saved.save other state = (.ok (), saved) := by
  refine ⟨(store.save refused state).2, store.writeKeys state StorageKey.all, _, ?_, ?_,
    updated_writeKeys state _ store, save_granted state {}, ?_, accesses_writeKeys state store, ?_⟩
  · rw [save_eq]
    cases (store.accesses state).find? refused with
    | some access => exact ⟨rfl, updated_writeKeys state _ store⟩
    | none => exact ⟨rfl, updated_writeKeys state _ store⟩
  · intro outages
    rw [save_granted]
    exact congrArg _ (writeKeys_afterSaves state (refused :: outages) store)
  · intro key
    rw [get?_writeKeys_of_mem key.mem_all, get?_writeKeys_of_mem key.mem_all]
  · intro other looks
    rw [save_eq, accesses_writeKeys, List.find?_eq_none.2 (by simp [looks]), writeKeys_writeKeys]

/-- A state with a fee rate and an empty pending federation is saved to a store that holds a federation,
    another rate and an entry of someone else. The write of the rate is refused at first. -/
theorem save_converges_after_refused_put :
    ∃ (state : State) (store cut saved : Store),
      store.get? StorageKey.newFederation.bytes = some [0xc1] ∧
      store.save (· = ⟨.put, .feePerKb⟩) state = (.error (.storage ⟨.put, .feePerKb⟩), cut) ∧
      cut.get? StorageKey.newFederation.bytes = none ∧
      cut.get? StorageKey.pendingFederation.bytes = some [0xc0] ∧
      cut.get? StorageKey.feePerKb.bytes = some [0x05] ∧ cut.get? [0x2a] = some [0x01] ∧
      cut.save (fun _ => false) state = (.ok (), saved) ∧
      saved.get? StorageKey.feePerKb.bytes = some [0x07] ∧ saved.get? [0x2a] = some [0x01] := by
  obtain ⟨state, isState⟩ : ∃ state : State,
      state = { State.initial Constants.regtest with pending := some {}, feePerKb := some 7 } :=
    ⟨_, rfl⟩
  obtain ⟨store, isStore⟩ : ∃ store : Store, store =
      ((((({} : Store).put StorageKey.newFederation.bytes [0xc1]).put
        StorageKey.feePerKb.bytes [0x05]).put [0x2a] [0x01])) := ⟨_, rfl⟩
  have stops : (store.accesses state).find? (· = ⟨.put, .feePerKb⟩) =
      some ⟨.put, .feePerKb⟩ := by
    rw [isStore, isState]
    decide +kernel
  obtain ⟨cut, saved, _, failed, again, whole, _⟩ :=
    save_converges (· = ⟨.put, .feePerKb⟩) state store
  rw [stops] at failed
  obtain ⟨failed, updated⟩ := failed
  refine ⟨state, store, cut, saved, ?_, failed, ?_, ?_, ?_, ?_, again [], ?_, ?_⟩
  · rw [isStore]
    decide +kernel
  · rw [updated.written _ (by decide), isState]
    decide +kernel
  · rw [updated.written _ (by decide), isState]
    decide +kernel
  · rw [updated.kept _ (by decide), isStore]
    decide +kernel
  · rw [updated.others _ (by intro key; cases key <;> decide +kernel), isStore]
    decide +kernel
  · rw [whole.written _ (by decide), isState]
    decide +kernel
  · rw [whole.others _ (by intro key; cases key <;> decide +kernel), isStore]
    decide +kernel

end Store

end TwoWayPeg
