import Mathlib
import StopTrading.Library.PointerWalk
import StopTrading.Library.Replies

/-!
# The model registry

`ModelRegistry` keeps what was trained elsewhere: entries in a fixed array, linked into 1024
chains by a hash of the model's identifier, and the weights one behind the other in an arena.
An entry holds its metadata as eight words, the flags packed into one.

`ModelTable` is what it is for: a list of models with different identifiers, in the order in
which they first came.

* `registry_refines_table` — a run of calls gets the replies of the table, and every walk along
  a chain ends.

Weights that are registered again get new room, and so do weights that are refused for want of
an entry: room in the arena is never given back.

### What is load-bearing

The table has an order, that in which identifiers first came, and the array of entries has the
same one: an entry is never freed, so the first free one is behind all others (`firstFree_eq`).
This makes the refinement a matter of equal indices, and it is also why a registry that is full
stays full.

The chains are the part that could go wrong.  A walk follows links in the array, and that it ends
needs more than that every link is valid.  `Linked.chains` has for each hash the list that its
chain is, with the library's `PointerWalk`; a new entry is put in front of its chain, which is a
link to a node that nothing leads to yet.

An entry points into the arena by offset and length.  `Keeps` says that what is written later
does not touch it: the arena only grows.
-/

namespace StopTrading.Ml

open PointerWalk Replies

/-! ## Metadata -/

/-- `ModelMetadata`. -/
structure ModelMetadata where
  modelId : BitVec 64
  version : BitVec 32
  weightCount : BitVec 32
  layerCount : BitVec 16
  modelType : BitVec 8
  isActive : Bool
  isShadow : Bool
  loadedAt : BitVec 64
  weightHash : BitVec 64
  deriving Repr, DecidableEq

/-- What `activate` makes of the metadata. -/
def ModelMetadata.promote (m : ModelMetadata) : ModelMetadata :=
  { m with isActive := true, isShadow := false }

/-- `AtomicModelMetadata`. -/
structure AtomicModelMetadata where
  modelId : BitVec 64
  version : BitVec 64
  weightCount : BitVec 64
  layerCount : BitVec 64
  modelType : BitVec 64
  flags : BitVec 64
  loadedAt : BitVec 64
  weightHash : BitVec 64

/-- The metadata of an entry that was never used. -/
def AtomicModelMetadata.zero : AtomicModelMetadata := ⟨0, 0, 0, 0, 0, 0, 0, 0⟩

/-- The flags in one word. -/
def packFlags (isActive isShadow : Bool) : BitVec 64 :=
  (if isActive then 1 else 0) ||| (if isShadow then 2 else 0)

/-- The lower bit says whether a model is active, -/
theorem packFlags_active (isActive isShadow : Bool) :
    (packFlags isActive isShadow &&& 1 != 0) = isActive := by
  cases isActive <;> cases isShadow <;> rfl

/-- and the one above it whether it runs in the shadow. -/
theorem packFlags_shadow (isActive isShadow : Bool) :
    (packFlags isActive isShadow &&& 2 != 0) = isShadow := by
  cases isActive <;> cases isShadow <;> rfl

/-- `store`. -/
def AtomicModelMetadata.store (m : ModelMetadata) : AtomicModelMetadata where
  modelId := m.modelId
  version := m.version.setWidth 64
  weightCount := m.weightCount.setWidth 64
  layerCount := m.layerCount.setWidth 64
  modelType := m.modelType.setWidth 64
  flags := packFlags m.isActive m.isShadow
  loadedAt := m.loadedAt
  weightHash := m.weightHash

/-- `load`. -/
def AtomicModelMetadata.load (a : AtomicModelMetadata) : ModelMetadata where
  modelId := a.modelId
  version := a.version.setWidth 32
  weightCount := a.weightCount.setWidth 32
  layerCount := a.layerCount.setWidth 16
  modelType := a.modelType.setWidth 8
  isActive := a.flags &&& 1 != 0
  isShadow := a.flags &&& 2 != 0
  loadedAt := a.loadedAt
  weightHash := a.weightHash

/-- **The words hold the metadata.** -/
@[simp] theorem AtomicModelMetadata.load_store (m : ModelMetadata) : (store m).load = m := by
  simp only [load, store, packFlags_active, packFlags_shadow]
  simp

/-! ## The weight arena -/

variable {W : Type}

/-- `MAX_WEIGHT_SIZE`. -/
def maxWeightSize : Nat := 1048576

/-- `WeightArena`. -/
structure WeightArena (W : Type) where
  data : Nat → W
  offset : Nat

namespace WeightArena

/-- `allocate`, by a caller that nobody comes before. -/
def allocate (arena : WeightArena W) (count : Nat) : Option (WeightArena W × Nat) :=
  if arena.offset + count > maxWeightSize then none
  else some ({ arena with offset := arena.offset + count }, arena.offset)

/-- `write`, or `None` for `false`. -/
def write (arena : WeightArena W) (offset : Nat) (weights : List W) : Option (WeightArena W) :=
  if offset + weights.length > maxWeightSize then none
  else
    some { arena with
      data := fun j =>
        if offset ≤ j then weights.getD (j - offset) (arena.data j) else arena.data j }

/-- `get_slice`. -/
def getSlice (arena : WeightArena W) (offset count : Nat) : Option (List W) :=
  if offset + count > maxWeightSize then none
  else some ((List.range count).map fun k => arena.data (offset + k))

end WeightArena

/-! ## The registry -/

/-- `MAX_MODELS`. -/
abbrev maxModels : Nat := 256

/-- A place in the array of entries. -/
abbrev Slot := Fin maxModels

/-- `ModelEntry`; `u64::MAX` as the end of a chain is `none`. -/
structure ModelEntry where
  metadata : AtomicModelMetadata
  weightOffset : Nat
  occupied : Bool
  nextInChain : Option Slot

/-- `ModelEntry::new`. -/
def ModelEntry.new : ModelEntry := ⟨.zero, 2 ^ 64 - 1, false, none⟩

/-- `ModelRegistry`. -/
structure ModelRegistry (W : Type) where
  entries : Slot → ModelEntry
  weightArena : WeightArena W
  buckets : Fin 1024 → Option Slot
  modelCount : BitVec 64
  activeCount : BitVec 64

/-- `RegistryStats`. -/
structure RegistryStats where
  totalModels : BitVec 64
  activeModels : BitVec 64
  weightBytesUsed : Nat
  weightCapacity : Nat
  deriving Repr, DecidableEq

/-- `hash_model_id`. -/
def hashModelId (modelId : BitVec 64) : Fin 1024 :=
  let h := modelId
  let h := h ^^^ (h >>> 33)
  let h := h * 0xff51afd7ed558ccd
  let h := h ^^^ (h >>> 33)
  let h := h * 0xc4ceb9fe1a85ec53
  let h := h ^^^ (h >>> 33)
  Fin.ofNat 1024 (h &&& 0x3FF).toNat

namespace ModelRegistry

/-- `new`, where `zero` is what the arena is filled with. -/
def new (zero : W) : ModelRegistry W :=
  ⟨fun _ => .new, ⟨fun _ => zero, 0⟩, fun _ => none, 0, 0⟩

/-- The links of the chains. -/
def next (r : ModelRegistry W) (i : Slot) : Option Slot := (r.entries i).nextInChain

/-- The walk along a chain to the entry of a model, which every call begins with; `none` if it
does not end. -/
def search (r : ModelRegistry W) (modelId : BitVec 64) : Option (Option Slot) :=
  seek r.next (fun i => (r.entries i).metadata.modelId = modelId) maxModels
    (r.buckets (hashModelId modelId))

/-- The first entry that is not occupied. -/
def firstFree (r : ModelRegistry W) : Option Slot :=
  (List.finRange maxModels).find? fun i => !(r.entries i).occupied

/-- `find_or_create_entry`. -/
def findOrCreateEntry (r : ModelRegistry W) (modelId : BitVec 64) :
    Option (ModelRegistry W × Option Slot) :=
  (r.search modelId).map fun
    | some i => (r, some i)
    | none =>
        match r.firstFree with
        | none => (r, none)
        | some i =>
            let bucket := hashModelId modelId
            let claimed := { r.entries i with occupied := true, nextInChain := r.buckets bucket }
            ({ r with
              entries := Function.update r.entries i claimed
              buckets := Function.update r.buckets bucket (some i) }, some i)

/-- The end of `register`: metadata and weights become those of an entry. -/
def fill (r : ModelRegistry W) (i : Slot) (metadata : ModelMetadata) (weightOffset : Nat) :
    ModelRegistry W :=
  let filled := { r.entries i with
    metadata := .store metadata
    weightOffset := weightOffset
    occupied := true }
  { r with
    entries := Function.update r.entries i filled
    modelCount := r.modelCount + 1
    activeCount := if metadata.isActive then r.activeCount + 1 else r.activeCount }

/-- `register`. -/
def register (r : ModelRegistry W) (metadata : ModelMetadata) (weights : List W) :
    Option (ModelRegistry W × Option Slot) :=
  if weights.length ≠ metadata.weightCount.toNat then some (r, none)
  else
    match r.weightArena.allocate weights.length with
    | none => some (r, none)
    | some (allocated, weightOffset) =>
        match allocated.write weightOffset weights with
        | none => some ({ r with weightArena := allocated }, none)
        | some written =>
            (findOrCreateEntry { r with weightArena := written } metadata.modelId).map fun
              | (r', none) => (r', none)
              | (r', some i) => (r'.fill i metadata weightOffset, some i)

/-- `get_weights`. -/
def getWeights (r : ModelRegistry W) (modelId : BitVec 64) : Option (Option (List W)) :=
  (r.search modelId).map fun found =>
    found.bind fun i =>
      r.weightArena.getSlice (r.entries i).weightOffset
        (r.entries i).metadata.load.weightCount.toNat

/-- `get_metadata`. -/
def getMetadata (r : ModelRegistry W) (modelId : BitVec 64) : Option (Option ModelMetadata) :=
  (r.search modelId).map fun found => found.map fun i => (r.entries i).metadata.load

/-- `activate`. -/
def activate (r : ModelRegistry W) (modelId : BitVec 64) : Option (ModelRegistry W × Bool) :=
  (r.search modelId).map fun
    | none => (r, false)
    | some i =>
        let m := (r.entries i).metadata.load
        if m.isActive then (r, true)
        else
          let promoted := { r.entries i with metadata := .store m.promote }
          ({ r with
            entries := Function.update r.entries i promoted
            activeCount := r.activeCount + 1 }, true)

/-- `get_active_models`. -/
def getActiveModels (r : ModelRegistry W) : List ModelMetadata :=
  (List.finRange maxModels).filterMap fun i =>
    if (r.entries i).occupied ∧ (r.entries i).metadata.load.isActive then
      some (r.entries i).metadata.load
    else none

/-- `get_stats`. -/
def getStats (r : ModelRegistry W) : RegistryStats :=
  ⟨r.modelCount, r.activeCount, r.weightArena.offset * 4, maxWeightSize * 4⟩

end ModelRegistry

/-! ## Calls -/

/-- A call of the registry. -/
inductive RegistryCall (W : Type) where
  | register (metadata : ModelMetadata) (weights : List W)
  | getWeights (modelId : BitVec 64)
  | getMetadata (modelId : BitVec 64)
  | activate (modelId : BitVec 64)
  | getActiveModels
  | getStats

/-- What a call returns. -/
inductive RegistryReply (W : Type) where
  | index (index : Option Nat)
  | weights (weights : Option (List W))
  | metadata (metadata : Option ModelMetadata)
  | activated (result : Bool)
  | models (models : List ModelMetadata)
  | stats (stats : RegistryStats)

/-- One call, unless it walks along a chain forever. -/
def ModelRegistry.serve (r : ModelRegistry W) :
    RegistryCall W → Option (ModelRegistry W × RegistryReply W)
  | .register metadata weights =>
      (r.register metadata weights).map fun (r', i) => (r', .index (i.map Fin.val))
  | .getWeights modelId => (r.getWeights modelId).map fun weights => (r, .weights weights)
  | .getMetadata modelId => (r.getMetadata modelId).map fun metadata => (r, .metadata metadata)
  | .activate modelId => (r.activate modelId).map fun (r', result) => (r', .activated result)
  | .getActiveModels => some (r, .models r.getActiveModels)
  | .getStats => some (r, .stats r.getStats)

/-! ## The table -/

/-- A model with its weights. -/
structure Model (W : Type) where
  metadata : ModelMetadata
  weights : List W

/-- The identifier of a model. -/
def Model.id (m : Model W) : BitVec 64 := m.metadata.modelId

/-- A model goes by the identifier of its metadata. -/
@[simp] theorem Model.id_mk (metadata : ModelMetadata) (weights : List W) :
    (⟨metadata, weights⟩ : Model W).id = metadata.modelId := rfl

/-- **The table of models**, in the order in which they first came, with the room that was ever
given to weights and how often a model was registered and became active. -/
structure ModelTable (W : Type) where
  models : List (Model W)
  used : Nat
  registrations : Nat
  activations : Nat

namespace ModelTable

/-- No model came yet. -/
def empty : ModelTable W := ⟨[], 0, 0, 0⟩

/-- Where a model is. -/
def indexOf (t : ModelTable W) (modelId : BitVec 64) : Option Nat :=
  t.models.findIdx? fun m => m.id = modelId

/-- The model with an identifier. -/
def lookup (t : ModelTable W) (modelId : BitVec 64) : Option (Model W) :=
  t.models.find? fun m => m.id = modelId

/-- A model comes, or comes again. -/
def register (t : ModelTable W) (metadata : ModelMetadata) (weights : List W) :
    ModelTable W × Option Nat :=
  if weights.length ≠ metadata.weightCount.toNat ∨ t.used + weights.length > maxWeightSize then
    (t, none)
  else
    let used := t.used + weights.length
    let registrations := t.registrations + 1
    let activations := if metadata.isActive then t.activations + 1 else t.activations
    match t.indexOf metadata.modelId with
    | some i => (⟨t.models.set i ⟨metadata, weights⟩, used, registrations, activations⟩, some i)
    | none =>
        if t.models.length = maxModels then ({ t with used := used }, none)
        else
          (⟨t.models ++ [⟨metadata, weights⟩], used, registrations, activations⟩,
            some t.models.length)

/-- A model becomes active. -/
def activate (t : ModelTable W) (modelId : BitVec 64) : ModelTable W × Bool :=
  match t.indexOf modelId, t.lookup modelId with
  | some i, some m =>
      if m.metadata.isActive then (t, true)
      else
        ({ t with
          models := t.models.set i { m with metadata := m.metadata.promote }
          activations := t.activations + 1 }, true)
  | _, _ => (t, false)

/-- What the table answers to a call. -/
def serve (t : ModelTable W) : RegistryCall W → ModelTable W × RegistryReply W
  | .register metadata weights => (t.register metadata weights).map id .index
  | .getWeights modelId => (t, .weights ((t.lookup modelId).map Model.weights))
  | .getMetadata modelId => (t, .metadata ((t.lookup modelId).map Model.metadata))
  | .activate modelId => (t.activate modelId).map id .activated
  | .getActiveModels => (t, .models ((t.models.map Model.metadata).filter ModelMetadata.isActive))
  | .getStats =>
      (t, .stats ⟨BitVec.ofNat 64 t.registrations, BitVec.ofNat 64 t.activations, t.used * 4,
        maxWeightSize * 4⟩)

end ModelTable

/-! ## The arena keeps what it was given -/

namespace WeightArena

/-- Room that was given out keeps what is in it. -/
structure Keeps (arena arena' : WeightArena W) : Prop where
  /-- the arena has grown -/
  offset : arena.offset ≤ arena'.offset
  /-- and what was in it is there -/
  older : ∀ offset count, offset + count ≤ arena.offset →
    arena'.getSlice offset count = arena.getSlice offset count

/-- Nothing was written. -/
theorem Keeps.refl (arena : WeightArena W) : arena.Keeps arena := ⟨le_rfl, fun _ _ _ => rfl⟩

/-- Weights are put behind those that are there. -/
structure Appends (arena : WeightArena W) (weights : List W) (written : WeightArena W) :
    Prop where
  /-- the arena has grown by the weights -/
  offset : written.offset = arena.offset + weights.length
  /-- which are found where it ended before -/
  slice : written.getSlice arena.offset weights.length = some weights
  /-- and everything else as it was -/
  keeps : arena.Keeps written

/-- **Weights that fit** are allocated and written. -/
theorem exists_appends (arena : WeightArena W) {weights : List W}
    (h : arena.offset + weights.length ≤ maxWeightSize) :
    ∃ allocated written, arena.allocate weights.length = some (allocated, arena.offset) ∧
      allocated.write arena.offset weights = some written ∧ arena.Appends weights written := by
  refine ⟨_, _, if_neg (Nat.not_lt.mpr h), if_neg (Nat.not_lt.mpr h), rfl, ?_,
    Nat.le_add_right _ _, ?_⟩
  · rw [getSlice, if_neg (Nat.not_lt.mpr h)]
    refine congrArg some (List.ext_getElem (by simp) fun k _ hk => ?_)
    simp [hk]
  · intro offset count hcount
    unfold getSlice
    refine if_congr Iff.rfl rfl (congrArg some (List.map_congr_left fun k hk => ?_))
    have hlt := List.mem_range.mp hk
    exact if_neg (by omega)

end WeightArena

/-! ## The chains -/

/-- **The entries are those of models with these identifiers**, linked into the chains of their
hashes. -/
structure Linked (r : ModelRegistry W) (ids : List (BitVec 64)) : Prop where
  /-- there is an entry for each -/
  few : ids.length ≤ maxModels
  /-- and one only -/
  distinct : ids.Nodup
  /-- the first entries are occupied -/
  occupied : ∀ i, (r.entries i).occupied = decide (i.val < ids.length)
  /-- and linked by their hashes -/
  chains : ∀ b, ∃ l, From r.next (r.buckets b) l ∧
    ∀ i : Slot, i ∈ l ↔ ∃ id, ids[i.val]? = some id ∧ hashModelId id = b

/-- A new registry has no entries, and chains that end at once. -/
theorem linked_new (zero : W) : Linked (.new zero) [] where
  few := Nat.zero_le _
  distinct := List.nodup_nil
  occupied _ := rfl
  chains _ := ⟨[], rfl, by simp⟩

namespace Linked

variable {r r' : ModelRegistry W} {ids : List (BitVec 64)}

/-- What the chains do not depend on may change. -/
theorem congr (h : Linked r ids) (hoccupied : ∀ i, (r'.entries i).occupied = (r.entries i).occupied)
    (hnext : r'.next = r.next) (hbuckets : r'.buckets = r.buckets) : Linked r' ids where
  few := h.few
  distinct := h.distinct
  occupied i := (hoccupied i).trans (h.occupied i)
  chains b := by
    rw [hnext, hbuckets]
    exact h.chains b

/-- The first entry that is free is the one behind all others. -/
theorem firstFree_eq (h : Linked r ids) :
    r.firstFree = if hlt : ids.length < maxModels then some ⟨ids.length, hlt⟩ else none := by
  unfold ModelRegistry.firstFree
  split_ifs with hlt
  · refine List.find?_eq_some_iff_getElem.mpr ⟨by simp [h.occupied], ids.length, by simpa using hlt,
      by simp, fun j hj => by simp [h.occupied, hj]⟩
  · refine List.find?_eq_none.mpr fun i _ => ?_
    have hi : i.val < ids.length := lt_of_lt_of_le i.isLt (Nat.le_of_not_lt hlt)
    simp [h.occupied, hi]

omit r r' in
/-- The identifiers after one more. -/
theorem exists_concat_iff {modelId : BitVec 64} {n : Slot} (hn : n.val = ids.length) (b : Fin 1024)
    (i : Slot) :
    (∃ id, (ids ++ [modelId])[i.val]? = some id ∧ hashModelId id = b) ↔
      (∃ id, ids[i.val]? = some id ∧ hashModelId id = b) ∨ (i = n ∧ hashModelId modelId = b) := by
  rcases lt_trichotomy i.val ids.length with hlt | heq | hgt
  · have hne : i ≠ n := by
      rintro rfl
      omega
    simp [List.getElem?_append_left hlt, hne]
  · have hin : i = n := Fin.ext (heq.trans hn.symm)
    simp [hin, hn]
  · have hne : i ≠ n := by
      rintro rfl
      omega
    have hnone : (ids ++ [modelId])[i.val]? = none := List.getElem?_eq_none (by simpa using hgt)
    simp [hnone, hne, List.getElem?_eq_none hgt.le]

/-- **A free entry is claimed** and put in front of its chain. -/
theorem claim (h : Linked r ids) {modelId : BitVec 64} (hnew : modelId ∉ ids)
    {n : Slot} (hn : n.val = ids.length)
    (hoccupied : ∀ i, (r'.entries i).occupied = Function.update (fun i => (r.entries i).occupied) n
      true i)
    (hnext : r'.next = Function.update r.next n (r.buckets (hashModelId modelId)))
    (hbuckets : r'.buckets = Function.update r.buckets (hashModelId modelId) (some n)) :
    Linked r' (ids ++ [modelId]) := by
  refine ⟨?_, ?_, fun i => ?_, fun b => ?_⟩
  · rw [List.length_append, List.length_singleton, ← hn]
    exact n.isLt
  · exact List.nodup_append.mpr ⟨h.distinct, List.nodup_singleton _,
      fun a ha b hb heq => hnew (by rwa [heq, List.mem_singleton.mp hb] at ha)⟩
  · rw [hoccupied]
    by_cases hi : i = n
    · simp [hi, hn]
    · have hne : i.val ≠ ids.length := fun heq => hi (Fin.ext (heq.trans hn.symm))
      rw [Function.update_of_ne hi, h.occupied, List.length_append, List.length_singleton]
      exact decide_eq_decide.mpr (by omega)
  · obtain ⟨l, hl, hmem⟩ := h.chains b
    have hfresh : n ∉ l := by simp [hmem, hn]
    rw [hnext, hbuckets]
    by_cases hb : b = hashModelId modelId
    · subst hb
      rw [Function.update_self]
      refine ⟨n :: l, hl.push hfresh, fun i => Iff.trans ?_ (exists_concat_iff hn _ i).symm⟩
      rw [List.mem_cons, hmem i, and_iff_left rfl]
      exact or_comm
    · rw [Function.update_of_ne hb]
      refine ⟨l, hl.update_of_notMem hfresh, fun i => Iff.trans ?_ (exists_concat_iff hn _ i).symm⟩
      rw [hmem i]
      exact (or_iff_left fun hand => hb hand.2.symm).symm

end Linked

/-! ## The refinement -/

/-- The entries of an array, up to the end of a list. -/
theorem filterMap_getElem? {α β : Type} (l : List α) (g : α → Option β) {n : Nat}
    (hn : l.length ≤ n) :
    (List.finRange n).filterMap (fun i => l[i.val]?.bind g) = l.filterMap g := by
  induction l generalizing n with
  | nil => simp
  | cons a l ih =>
      obtain ⟨n, rfl⟩ := Nat.exists_eq_add_of_le' (Nat.le_trans (by simp) hn : 1 ≤ n)
      have hrest := ih (n := n) (by simpa using hn)
      rw [List.finRange_succ, List.filterMap_cons, List.filterMap_map, List.filterMap_cons]
      simp only [Function.comp_def, Fin.val_succ, List.getElem?_cons_succ, hrest]
      simp

/-- A model that is in the table is found there. -/
theorem ModelTable.found_of_getElem? {t : ModelTable W} (distinct : (t.models.map Model.id).Nodup)
    {i : Nat} {m : Model W} (h : t.models[i]? = some m) :
    t.indexOf m.id = some i ∧ t.lookup m.id = some m := by
  obtain ⟨hi, rfl⟩ := List.getElem?_eq_some_iff.mp h
  have hfirst : ∀ j (hlt : j < t.models.length), j < i → ¬ t.models[j].id = t.models[i].id := by
    intro j hlt hj heq
    have hget : (t.models.map Model.id)[j]? = (t.models.map Model.id)[i]? := by
      simp [List.getElem?_eq_getElem hlt, List.getElem?_eq_getElem hi, heq]
    exact absurd ((List.getElem?_inj (by simpa using hlt) distinct).mp hget) (Nat.ne_of_lt hj)
  constructor
  · exact List.findIdx?_eq_some_iff_getElem.mpr
      ⟨hi, by simp, fun j hj => by simpa using hfirst j (hj.trans hi) hj⟩
  · exact List.find?_eq_some_iff_getElem.mpr
      ⟨by simp, i, hi, rfl, fun j hj => by
        simpa using hfirst j (hj.trans hi) hj⟩

/-- An entry holds a model of the table. -/
structure Holds (r : ModelRegistry W) (i : Slot) (m : Model W) : Prop where
  /-- the metadata are in the entry -/
  metadata : (r.entries i).metadata = .store m.metadata
  /-- the weights are counted -/
  count : m.weights.length = m.metadata.weightCount.toNat
  /-- they are in the arena -/
  room : (r.entries i).weightOffset + m.weights.length ≤ r.weightArena.offset
  /-- where the entry points -/
  slice : r.weightArena.getSlice (r.entries i).weightOffset m.weights.length = some m.weights

/-- An entry that stays as it is holds what it held. -/
theorem Holds.mono {r r' : ModelRegistry W} {i : Slot} {m : Model W} (h : Holds r i m)
    (hentry : r'.entries i = r.entries i) (keeps : r.weightArena.Keeps r'.weightArena) :
    Holds r' i m where
  metadata := by rw [hentry, h.metadata]
  count := h.count
  room := by
    rw [hentry]
    exact h.room.trans keeps.offset
  slice := by rw [hentry, keeps.older _ _ h.room, h.slice]

/-- **The entries hold the models of the table**, one each and in order. -/
structure Registered (r : ModelRegistry W) (t : ModelTable W) : Prop where
  /-- so much of the arena was given out -/
  used : r.weightArena.offset = t.used
  /-- registrations are counted -/
  modelCount : r.modelCount = BitVec.ofNat 64 t.registrations
  /-- and activations -/
  activeCount : r.activeCount = BitVec.ofNat 64 t.activations
  /-- the chains lead to the models -/
  linked : Linked r (t.models.map Model.id)
  /-- and the entries hold them -/
  holds : ∀ (i : Slot) m, t.models[i.val]? = some m → Holds r i m

/-- A new registry holds the empty table. -/
theorem registered_new (zero : W) : Registered (.new zero) .empty where
  used := rfl
  modelCount := rfl
  activeCount := rfl
  linked := linked_new zero
  holds _ _ h := by simp [ModelTable.empty] at h

/-- What the walk along a chain finds, and what the table has. -/
inductive Found (r : ModelRegistry W) (t : ModelTable W) (modelId : BitVec 64) : Prop
  | known (i : Slot) (m : Model W) (search : r.search modelId = some (some i))
      (model : t.models[i.val]? = some m) (id : m.id = modelId)
      (indexOf : t.indexOf modelId = some i.val) (lookup : t.lookup modelId = some m)
  | unknown (search : r.search modelId = some none) (new : modelId ∉ t.models.map Model.id)
      (indexOf : t.indexOf modelId = none) (lookup : t.lookup modelId = none)

namespace Registered

variable {r : ModelRegistry W} {t : ModelTable W}

/-- The identifier in an entry. -/
theorem modelId_eq (h : Registered r t) {i : Slot} {m : Model W}
    (hm : t.models[i.val]? = some m) : (r.entries i).metadata.modelId = m.id := by
  rw [(h.holds i m hm).metadata]
  rfl

/-- **The walk along a chain** finds what the table has. -/
theorem found (h : Registered r t) (modelId : BitVec 64) : Found r t modelId := by
  obtain ⟨l, hl, hmem⟩ := h.linked.chains (hashModelId modelId)
  have hsearch : r.search modelId =
      some (l.find? fun i => (r.entries i).metadata.modelId = modelId) :=
    hl.seek_eq (by simpa using hl.length_le_card)
  have hmodel : ∀ i : Slot, i ∈ l ↔ ∃ m, t.models[i.val]? = some m ∧
      hashModelId m.id = hashModelId modelId := by
    intro i
    rw [hmem i]
    simp
  cases hfind : l.find? fun i => (r.entries i).metadata.modelId = modelId with
  | some i =>
      obtain ⟨m, hm, -⟩ := (hmodel i).mp (List.mem_of_find?_eq_some hfind)
      have hid : m.id = modelId := by
        rw [← h.modelId_eq hm]
        simpa using List.find?_some hfind
      obtain ⟨hindex, hlookup⟩ := ModelTable.found_of_getElem? h.linked.distinct hm
      rw [hid] at hindex hlookup
      exact .known i m (hsearch.trans (congrArg some hfind)) hm hid hindex hlookup
  | none =>
      have hnew : ∀ m ∈ t.models, m.id ≠ modelId := by
        intro m hmem hid
        obtain ⟨j, hj, rfl⟩ := List.mem_iff_getElem.mp hmem
        have hlt : j < maxModels := lt_of_lt_of_le hj (by simpa using h.linked.few)
        have hm : t.models[(⟨j, hlt⟩ : Slot).val]? = some t.models[j] := List.getElem?_eq_getElem hj
        have hnone := List.find?_eq_none.mp hfind ⟨j, hlt⟩ ((hmodel _).mpr ⟨_, hm, by rw [hid]⟩)
        rw [h.modelId_eq hm] at hnone
        simp [hid] at hnone
      exact .unknown (hsearch.trans (congrArg some hfind)) (by simpa using hnew)
        (List.findIdx?_eq_none_iff.mpr fun m hmem => by simpa using hnew m hmem)
        (List.find?_eq_none.mpr fun m hmem => by simpa using hnew m hmem)

/-- An entry is written over, and its model keeps the identifier. -/
theorem rewrite (h : Registered r t) {i : Slot} {m m' : Model W} {r' : ModelRegistry W}
    {e : ModelEntry} (hm : t.models[i.val]? = some m) (holds : Holds r' i m') (hid : m'.id = m.id)
    (hentries : r'.entries = Function.update r.entries i e) (hoccupied : e.occupied = true)
    (hnext : e.nextInChain = (r.entries i).nextInChain) (hbuckets : r'.buckets = r.buckets)
    (keeps : r.weightArena.Keeps r'.weightArena) :
    Linked r' ((t.models.set i.val m').map Model.id) ∧
      ∀ (j : Slot) n, (t.models.set i.val m')[j.val]? = some n → Holds r' j n := by
  obtain ⟨hlt, hget⟩ := List.getElem?_eq_some_iff.mp hm
  have hids : (t.models.set i.val m').map Model.id = t.models.map Model.id := by
    refine List.ext_getElem? fun j => ?_
    by_cases hj : i.val = j
    · subst hj
      simp [hlt, hid, hget]
    · simp [hj]
  constructor
  · rw [hids]
    refine h.linked.congr (fun j => ?_) (funext fun j => ?_) hbuckets
    · by_cases hj : j = i
      · subst hj
        have htrue : (r.entries j).occupied = true := by simpa [h.linked.occupied] using hlt
        rw [hentries, Function.update_self, hoccupied, htrue]
      · rw [hentries, Function.update_of_ne hj]
    · by_cases hj : j = i
      · subst hj
        simp [ModelRegistry.next, hentries, hnext]
      · simp [ModelRegistry.next, hentries, hj]
  · intro j n hn
    by_cases hj : j = i
    · subst hj
      obtain rfl : m' = n := by simpa [hlt] using hn
      exact holds
    · have hval : i.val ≠ j.val := fun heq => hj (Fin.ext heq.symm)
      rw [List.getElem?_set_ne hval] at hn
      exact (h.holds j n hn).mono (by rw [hentries, Function.update_of_ne hj]) keeps

/-- **A model that the table has** is registered again. -/
theorem register_known (h : Registered r t) {i : Slot} {m : Model W}
    (hm : t.models[i.val]? = some m) {metadata : ModelMetadata} {weights : List W}
    (hid : metadata.modelId = m.id) (hcount : weights.length = metadata.weightCount.toNat)
    {written : WeightArena W} (appends : r.weightArena.Appends weights written) :
    Registered (ModelRegistry.fill { r with weightArena := written } i metadata
        r.weightArena.offset)
      ⟨t.models.set i.val ⟨metadata, weights⟩, t.used + weights.length, t.registrations + 1,
        if metadata.isActive then t.activations + 1 else t.activations⟩ := by
  have holds : Holds (ModelRegistry.fill { r with weightArena := written } i metadata
      r.weightArena.offset) i ⟨metadata, weights⟩ :=
    ⟨by simp [ModelRegistry.fill], hcount, by simp [ModelRegistry.fill, appends.offset],
      by simp [ModelRegistry.fill, appends.slice]⟩
  obtain ⟨hlinked, hholds⟩ := h.rewrite hm holds hid rfl rfl rfl rfl appends.keeps
  refine ⟨?_, ?_, ?_, hlinked, hholds⟩
  · rw [← h.used]
    exact appends.offset
  · simp [ModelRegistry.fill, h.modelCount, BitVec.ofNat_add]
  · cases hactive : metadata.isActive <;>
      simp [ModelRegistry.fill, hactive, h.activeCount, BitVec.ofNat_add]

/-- **A new model** gets the first entry that is free. -/
theorem register_new (h : Registered r t) {metadata : ModelMetadata} {weights : List W}
    (hnew : metadata.modelId ∉ t.models.map Model.id) {n : Slot} (hn : n.val = t.models.length)
    (hcount : weights.length = metadata.weightCount.toNat) {written : WeightArena W}
    (appends : r.weightArena.Appends weights written) {claimed : ModelRegistry W}
    (hclaimed : claimed = { r with
      weightArena := written
      entries := Function.update r.entries n { r.entries n with
        occupied := true
        nextInChain := r.buckets (hashModelId metadata.modelId) }
      buckets := Function.update r.buckets (hashModelId metadata.modelId) (some n) }) :
    Registered (claimed.fill n metadata r.weightArena.offset)
      ⟨t.models ++ [⟨metadata, weights⟩], t.used + weights.length, t.registrations + 1,
        if metadata.isActive then t.activations + 1 else t.activations⟩ := by
  subst hclaimed
  refine ⟨?_, ?_, ?_, ?_, fun j m hm => ?_⟩
  · rw [← h.used]
    exact appends.offset
  · simp [ModelRegistry.fill, h.modelCount, BitVec.ofNat_add]
  · cases hactive : metadata.isActive <;>
      simp [ModelRegistry.fill, hactive, h.activeCount, BitVec.ofNat_add]
  · rw [List.map_append]
    refine h.linked.claim hnew (by simpa using hn) (fun i => ?_) (funext fun i => ?_) rfl
    · by_cases hi : i = n <;> simp [ModelRegistry.fill, hi]
    · by_cases hi : i = n <;> simp [ModelRegistry.fill, ModelRegistry.next, hi]
  · by_cases hj : j = n
    · subst hj
      obtain rfl : ⟨metadata, weights⟩ = m := by simpa [hn] using hm
      exact ⟨by simp [ModelRegistry.fill], hcount, by simp [ModelRegistry.fill, appends.offset],
        by simp [ModelRegistry.fill, appends.slice]⟩
    · have hlt : j.val < t.models.length := by
        have hle := (List.getElem?_eq_some_iff.mp hm).1
        have hval : j.val ≠ n.val := fun heq => hj (Fin.ext heq)
        rw [List.length_append, List.length_singleton] at hle
        omega
      rw [List.getElem?_append_left hlt] at hm
      exact (h.holds j m hm).mono (by simp [ModelRegistry.fill, hj]) appends.keeps

/-- What `register` does once the weights are in the arena. -/
theorem register_eq {metadata : ModelMetadata} {weights : List W}
    (hcount : weights.length = metadata.weightCount.toNat) {allocated written : WeightArena W}
    (hallocated : r.weightArena.allocate weights.length = some (allocated, r.weightArena.offset))
    (hwritten : allocated.write r.weightArena.offset weights = some written) :
    r.register metadata weights =
      (ModelRegistry.findOrCreateEntry { r with weightArena := written } metadata.modelId).map fun
        | (r', none) => (r', none)
        | (r', some i) => (r'.fill i metadata r.weightArena.offset, some i) := by
  simp only [ModelRegistry.register, hcount, ne_eq, not_true_eq_false, if_false]
  rw [← hcount, hallocated]
  simp only [hwritten]

/-- **`register`** does what the table does. -/
theorem register (h : Registered r t) (metadata : ModelMetadata) (weights : List W) :
    ∃ r' t' i, r.register metadata weights = some (r', i) ∧
      t.register metadata weights = (t', i.map Fin.val) ∧ Registered r' t' := by
  by_cases hcount : weights.length = metadata.weightCount.toNat
  case neg =>
    exact ⟨r, t, none, by simp [ModelRegistry.register, hcount],
      by simp [ModelTable.register, hcount], h⟩
  by_cases hroom : r.weightArena.offset + weights.length ≤ maxWeightSize
  case neg =>
    have hnone : r.weightArena.allocate weights.length = none := if_pos (Nat.lt_of_not_le hroom)
    rw [h.used] at hroom
    exact ⟨r, t, none, by simp [ModelRegistry.register, hnone],
      by simp [ModelTable.register, Nat.lt_of_not_le hroom], h⟩
  obtain ⟨allocated, written, hallocated, hwritten, appends⟩ :=
    r.weightArena.exists_appends hroom
  have hregister := register_eq hcount hallocated hwritten
  have hfits : ¬ (weights.length ≠ metadata.weightCount.toNat ∨
      t.used + weights.length > maxWeightSize) := by
    rw [← h.used]
    exact not_or.mpr ⟨not_not.mpr hcount, Nat.not_lt.mpr hroom⟩
  have hsearch : ModelRegistry.search { r with weightArena := written } metadata.modelId =
      r.search metadata.modelId := rfl
  cases h.found metadata.modelId with
  -- another version of a model that is there
  | known i m search model id indexOf lookup =>
      refine ⟨_, _, some i, ?_, ?_, h.register_known model id.symm hcount appends⟩
      · rw [hregister, ModelRegistry.findOrCreateEntry, hsearch, search]
        rfl
      · rw [ModelTable.register, if_neg hfits, indexOf]
        rfl
  | unknown search new indexOf lookup =>
      have hfree : ModelRegistry.firstFree { r with weightArena := written } = _ :=
        h.linked.firstFree_eq
      rw [List.length_map] at hfree
      by_cases hfull : t.models.length = maxModels
      -- there is no entry left, but the weights have been stored
      case pos =>
        rw [dif_neg (by simp [hfull])] at hfree
        refine ⟨{ r with weightArena := written }, { t with used := t.used + weights.length }, none,
          ?_, ?_, ?_, h.modelCount, h.activeCount, h.linked.congr (fun _ => rfl) rfl rfl,
          fun i m hm => (h.holds i m hm).mono rfl appends.keeps⟩
        · rw [hregister, ModelRegistry.findOrCreateEntry, hsearch, search]
          simp only [Option.map_some, hfree]
        · rw [ModelTable.register, if_neg hfits, indexOf]
          simp [hfull]
        · rw [← h.used]
          exact appends.offset
      case neg =>
        have hfew : t.models.length ≤ maxModels := by simpa using h.linked.few
        have hlt : t.models.length < maxModels := lt_of_le_of_ne hfew hfull
        rw [dif_pos hlt] at hfree
        refine ⟨_, _, some ⟨t.models.length, hlt⟩, ?_, ?_,
          h.register_new (n := ⟨t.models.length, hlt⟩) new rfl hcount appends rfl⟩
        · rw [hregister, ModelRegistry.findOrCreateEntry, hsearch, search]
          simp only [Option.map_some, hfree]
        · rw [ModelTable.register, if_neg hfits, indexOf]
          simp only [hfull, if_false, Option.map_some]

/-- **`activate`** does what the table does. -/
theorem activate (h : Registered r t) (modelId : BitVec 64) :
    ∃ r' t' result, r.activate modelId = some (r', result) ∧
      t.activate modelId = (t', result) ∧ Registered r' t' := by
  cases h.found modelId with
  | unknown search new indexOf lookup =>
      exact ⟨r, t, false, by simp [ModelRegistry.activate, search],
        by simp [ModelTable.activate, indexOf], h⟩
  | known i m search model id indexOf lookup =>
      have hload : (r.entries i).metadata.load = m.metadata := by
        rw [(h.holds i m model).metadata, AtomicModelMetadata.load_store]
      cases hactive : m.metadata.isActive with
      | true =>
          exact ⟨r, t, true, by simp [ModelRegistry.activate, search, hload, hactive],
            by simp [ModelTable.activate, indexOf, lookup, hactive], h⟩
      | false =>
          have hheld := h.holds i m model
          let r' : ModelRegistry W := { r with
            entries := Function.update r.entries i
              { r.entries i with metadata := .store m.metadata.promote }
            activeCount := r.activeCount + 1 }
          have holds : Holds r' i { m with metadata := m.metadata.promote } :=
            ⟨by simp [r'], hheld.count, by simpa [r'] using hheld.room,
              by simpa [r'] using hheld.slice⟩
          have hoccupied : (r.entries i).occupied = true := by
            simpa [h.linked.occupied] using (List.getElem?_eq_some_iff.mp model).1
          obtain ⟨hlinked, hholds⟩ :=
            h.rewrite model holds rfl rfl hoccupied rfl rfl (.refl r.weightArena)
          refine ⟨r', { t with
              models := t.models.set i.val { m with metadata := m.metadata.promote }
              activations := t.activations + 1 }, true, ?_, ?_, h.used, h.modelCount, ?_, hlinked,
            hholds⟩
          · simp [ModelRegistry.activate, search, hload, hactive, r']
          · simp [ModelTable.activate, indexOf, lookup, hactive]
          · simp [r', h.activeCount, BitVec.ofNat_add]

/-- **`get_weights`** gives what was registered last. -/
theorem getWeights (h : Registered r t) (modelId : BitVec 64) :
    r.getWeights modelId = some ((t.lookup modelId).map Model.weights) := by
  cases h.found modelId with
  | unknown search new indexOf lookup => simp [ModelRegistry.getWeights, search, lookup]
  | known i m search model id indexOf lookup =>
      have hheld := h.holds i m model
      have hcount : (r.entries i).metadata.load.weightCount.toNat = m.weights.length := by
        rw [hheld.metadata, AtomicModelMetadata.load_store, hheld.count]
      rw [ModelRegistry.getWeights, search, lookup, Option.map_some, Option.bind_some, hcount,
        hheld.slice, Option.map_some]

/-- **`get_metadata`**. -/
theorem getMetadata (h : Registered r t) (modelId : BitVec 64) :
    r.getMetadata modelId = some ((t.lookup modelId).map Model.metadata) := by
  cases h.found modelId with
  | unknown search new indexOf lookup => simp [ModelRegistry.getMetadata, search, lookup]
  | known i m search model id indexOf lookup =>
      simp [ModelRegistry.getMetadata, search, lookup, (h.holds i m model).metadata]

/-- **`get_active_models`** gives the models in the order in which they came. -/
theorem getActiveModels (h : Registered r t) :
    r.getActiveModels = (t.models.map Model.metadata).filter ModelMetadata.isActive := by
  have hentry : ∀ i : Slot, (if (r.entries i).occupied ∧ (r.entries i).metadata.load.isActive then
      some (r.entries i).metadata.load else none) =
      t.models[i.val]?.bind fun m => if m.metadata.isActive then some m.metadata else none := by
    intro i
    cases hm : t.models[i.val]? with
    | none =>
        have hfree : (r.entries i).occupied = false := by
          simpa [h.linked.occupied] using List.getElem?_eq_none_iff.mp hm
        simp [hfree]
    | some m =>
        have hoccupied : (r.entries i).occupied = true := by
          simpa [h.linked.occupied] using (List.getElem?_eq_some_iff.mp hm).1
        simp [hoccupied, (h.holds i m hm).metadata]
  have hfew : t.models.length ≤ maxModels := by simpa using h.linked.few
  unfold ModelRegistry.getActiveModels
  simp only [hentry, filterMap_getElem? _ _ hfew, List.filter_map]
  rw [← List.filterMap_eq_map, List.filterMap_filter]
  rfl

/-- **Each call** gets the reply of the table. -/
theorem serve (h : Registered r t) (c : RegistryCall W) :
    ∃ r' t' reply, r.serve c = some (r', reply) ∧ some (t.serve c) = some (t', reply) ∧
      Registered r' t' := by
  cases c with
  | register metadata weights =>
      obtain ⟨r', t', i, hr, ht, h'⟩ := h.register metadata weights
      exact ⟨r', t', .index (i.map Fin.val), by simp [ModelRegistry.serve, hr],
        by simp [ModelTable.serve, ht], h'⟩
  | getWeights modelId =>
      exact ⟨r, t, _, by rw [ModelRegistry.serve, h.getWeights, Option.map_some], rfl, h⟩
  | getMetadata modelId =>
      exact ⟨r, t, _, by rw [ModelRegistry.serve, h.getMetadata, Option.map_some], rfl, h⟩
  | activate modelId =>
      obtain ⟨r', t', result, hr, ht, h'⟩ := h.activate modelId
      exact ⟨r', t', .activated result, by simp [ModelRegistry.serve, hr],
        by simp [ModelTable.serve, ht], h'⟩
  | getActiveModels => exact ⟨r, t, _, by rw [ModelRegistry.serve, h.getActiveModels], rfl, h⟩
  | getStats =>
      refine ⟨r, t, _, rfl, ?_, h⟩
      rw [ModelTable.serve, ModelRegistry.getStats, h.used, h.modelCount, h.activeCount]

end Registered

/-- **The model registry is a table of models**: a run of calls gets the replies of the table. -/
theorem registry_refines_table (zero : W) (cs : List (RegistryCall W)) :
    ∃ rs, replies ModelRegistry.serve (.new zero) cs = some rs ∧
      replies (fun t c => some (ModelTable.serve t c)) .empty cs = some rs :=
  replies_of_simulation (G := fun _ _ => True) (fun _ _ c sim _ => sim.serve c) cs
    (registered_new zero) (allowed_of_forall (fun _ _ => trivial) _ cs)

end StopTrading.Ml
