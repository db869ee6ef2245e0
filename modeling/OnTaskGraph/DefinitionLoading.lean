import OnTaskGraph.JsObject

/-! The loader of graph and task definitions: `mergeDefinitionArrays`, and `load`, which
persists what it merges into the store. -/

namespace OnTaskGraph.DefinitionLoading

open JsText (Text)
open JsObject

/-- `fields` are those of a definition that the loader does not read. -/
structure TaskDefinition (ω : Type) where
  injectableName : Text
  implementsTask : Option Text
  fields : ω

structure GraphDefinition (ω : Type) where
  injectableName : Text
  tasks : List ω
  fields : ω

/-- `if (task.implementsTask)` -/
def TaskDefinition.implements {ω : Type} (task : TaskDefinition ω) : Bool := task.implementsTask.any (· ≠ [])

section Merge

variable {δ : Type} (name : δ → Text)

def definitionsArrayToHash (data : List δ) : Properties δ :=
  data.foldl (fun result definition => assign result (name definition) definition) []

/-- `_.has`: `hasPath` is what it finds in the hash of some definitions by following a
path, where there is no property of that name. -/
def has (hasPath : List δ → Text → Bool) (data : List δ) (k : Text) : Bool :=
  (own (definitionsArrayToHash name data) k).isSome || hasPath data k

/-- A value may be undefined. -/
def mergeDefinitionArrays (hasPath : List δ → Text → Bool) (overlay base : List δ) : List (Option δ) :=
  let overlayHash := definitionsArrayToHash name overlay
  let baseHash := definitionsArrayToHash name base
  let allKeys := (keys overlayHash ++ keys baseHash).eraseDups
  let merged := allKeys.foldl (fun result k =>
    if has name hasPath overlay k then assign result k (own overlayHash k)
    else if has name hasPath base k then assign result k (own baseHash k)
    else result) []
  (enumerate merged).map Prod.snd

end Merge

inductive Failure
  | typeError
  | assertionError
  deriving DecidableEq

def defined {δ : Type} (failure : Failure) (results : List (Option δ)) : Except Failure (List δ) :=
  match results.mapM id with
  | none => .error failure
  | some definitions => .ok definitions

structure Loader (ω : Type) where
  graphLibrary : List (GraphDefinition ω)
  taskLibrary : List (TaskDefinition ω)
  /-- What `_.has` finds in a hash of definitions by following a path. -/
  graphPath : List (GraphDefinition ω) → Text → Bool
  taskPath : List (TaskDefinition ω) → Text → Bool

/-- What is persisted for the definitions that the store gives. The filter reads a field of
each task, and the assertions of `persistGraphs` ask for objects. -/
def Loader.load {ω : Type} (self : Loader ω) (taskCatalog : List (TaskDefinition ω))
    (graphCatalog : List (GraphDefinition ω)) :
    Except Failure (List (TaskDefinition ω) × List (GraphDefinition ω)) := do
  let graphResults :=
    mergeDefinitionArrays GraphDefinition.injectableName self.graphPath self.graphLibrary graphCatalog
  let taskResults :=
    mergeDefinitionArrays TaskDefinition.injectableName self.taskPath self.taskLibrary taskCatalog
  let tasks ← defined .typeError taskResults
  let graphs ← defined .assertionError graphResults
  return (tasks.filter TaskDefinition.implements, graphs)

section Merged

variable {δ : Type} {name : δ → Text} {hasPath : List δ → Text → Bool} {overlay base : List δ}

def lastNamed (name : δ → Text) (data : List δ) (k : Text) : Option δ :=
  (data.filter fun d => name d = k).getLast?

/-- The definition of its name: from the overlay if that has the name, and else from the base. -/
def Merged (name : δ → Text) (overlay base : List δ) (d : δ) : Prop :=
  (lastNamed name overlay (name d)).or (lastNamed name base (name d)) = some d

/-- No name of the base alone is found in the overlay as a path. -/
def PathFree (name : δ → Text) (hasPath : List δ → Text → Bool) (overlay base : List δ) : Prop :=
  ∀ d ∈ base, name d ≠ proto → (∀ e ∈ overlay, name e ≠ name d) → hasPath overlay (name d) = false

theorem lastNamed_append_singleton (data : List δ) (d : δ) (k : Text) :
    lastNamed name (data ++ [d]) k = if name d = k then some d else lastNamed name data k := by
  by_cases h : name d = k <;> simp [lastNamed, List.filter_append, h]

theorem lastNamed_eq_some {data : List δ} {k : Text} {d : δ} (h : lastNamed name data k = some d) :
    d ∈ data ∧ name d = k := by
  have hmem := List.mem_of_getLast? h
  simpa using hmem

theorem lastNamed_eq_none {data : List δ} {k : Text} : lastNamed name data k = none ↔ ∀ d ∈ data, name d ≠ k := by
  simp [lastNamed]

theorem own_definitionsArrayToHash (data : List δ) (k : Text) :
    own (definitionsArrayToHash name data) k = if k = proto then none else lastNamed name data k := by
  induction data using List.reverseRecOn with
  | nil => simp [definitionsArrayToHash, own, lastNamed]
  | append_singleton data d ih =>
    rw [definitionsArrayToHash, List.foldl_append, ← definitionsArrayToHash, List.foldl_cons, List.foldl_nil,
      own_assign, ih, lastNamed_append_singleton]
    by_cases hd : name d = k
    · by_cases hp : k = proto <;> simp [hd, hp]
    · simp [hd]

theorem mem_keys_hash {data : List δ} {k : Text} :
    k ∈ keys (definitionsArrayToHash name data) ↔ k ≠ proto ∧ ∃ d ∈ data, name d = k := by
  rw [mem_keys, own_definitionsArrayToHash]
  by_cases hp : k = proto
  · simp [hp]
  · have hnone : lastNamed name data k = none ↔ ∀ d ∈ data, name d ≠ k := lastNamed_eq_none
    rw [if_neg hp, ← Option.ne_none_iff_isSome, ne_eq, hnone]
    simp [hp]

def mergedValue (name : δ → Text) (hasPath : List δ → Text → Bool) (overlay base : List δ) (k : Text) :
    Option δ :=
  if has name hasPath overlay k then own (definitionsArrayToHash name overlay) k
  else own (definitionsArrayToHash name base) k

def allKeys (name : δ → Text) (overlay base : List δ) : List Text :=
  (keys (definitionsArrayToHash name overlay) ++ keys (definitionsArrayToHash name base)).eraseDups

theorem mem_allKeys {k : Text} :
    k ∈ allKeys name overlay base ↔ k ≠ proto ∧ ((∃ d ∈ overlay, name d = k) ∨ ∃ d ∈ base, name d = k) := by
  rw [allKeys, List.mem_eraseDups, List.mem_append, mem_keys_hash, mem_keys_hash, and_or_left]

theorem mergeDefinitionArrays_eq : mergeDefinitionArrays name hasPath overlay base =
    (enumerate (ofKeys (mergedValue name hasPath overlay base) (allKeys name overlay base))).map Prod.snd := by
  have hstep : ∀ (result : Properties (Option δ)), ∀ k ∈ allKeys name overlay base,
      (if has name hasPath overlay k then assign result k (own (definitionsArrayToHash name overlay) k)
        else if has name hasPath base k then assign result k (own (definitionsArrayToHash name base) k)
        else result) = assign result k (mergedValue name hasPath overlay base k) := by
    intro result k hk
    by_cases hoverlay : has name hasPath overlay k
    · simp [mergedValue, hoverlay]
    · have hbase : has name hasPath base k = true := by
        rw [allKeys, List.mem_eraseDups, List.mem_append, mem_keys, mem_keys] at hk
        rcases hk with hk | hk
        · exact absurd (by simp [has, hk]) hoverlay
        · simp [has, hk]
      simp [mergedValue, hoverlay, hbase]
  simp only [mergeDefinitionArrays, ofKeys]
  rw [← allKeys, List.foldl_ext _ _ _ hstep]

theorem mem_mergeDefinitionArrays {v : Option δ} : v ∈ mergeDefinitionArrays name hasPath overlay base ↔
    ∃ k ∈ allKeys name overlay base, mergedValue name hasPath overlay base k = v := by
  have hnodup := ofKeys_nodup (mergedValue name hasPath overlay base) (allKeys name overlay base)
  rw [mergeDefinitionArrays_eq, ((enumerate_perm _).map Prod.snd).mem_iff, List.mem_map]
  constructor
  · rintro ⟨⟨k, w⟩, hmem, rfl⟩
    rw [mem_iff_own hnodup, own_ofKeys] at hmem
    split at hmem
    · rename_i hk
      exact ⟨k, hk.1, Option.some.inj hmem⟩
    · cases hmem
  · rintro ⟨k, hk, rfl⟩
    refine ⟨(k, mergedValue name hasPath overlay base k), ?_, rfl⟩
    rw [mem_iff_own hnodup, own_ofKeys, if_pos ⟨hk, (mem_allKeys.mp hk).1⟩]

theorem own_hash_eq_some {data : List δ} {k : Text} {d : δ} :
    own (definitionsArrayToHash name data) k = some d ↔ k ≠ proto ∧ lastNamed name data k = some d := by
  rw [own_definitionsArrayToHash]
  by_cases hp : k = proto <;> simp [hp]

theorem mergedValue_name {k : Text} {d : δ} (h : mergedValue name hasPath overlay base k = some d) :
    name d = k := by
  unfold mergedValue at h
  split at h
  · exact (lastNamed_eq_some (own_hash_eq_some.mp h).2).2
  · exact (lastNamed_eq_some (own_hash_eq_some.mp h).2).2

theorem mergedValue_eq {k : Text} (hp : k ≠ proto)
    (hpath : (∀ e ∈ overlay, name e ≠ k) → hasPath overlay k = false) :
    mergedValue name hasPath overlay base k = (lastNamed name overlay k).or (lastNamed name base k) := by
  rw [mergedValue, has, own_definitionsArrayToHash, own_definitionsArrayToHash, if_neg hp, if_neg hp]
  cases hoverlay : lastNamed name overlay k with
  | none => simp [hpath (lastNamed_eq_none.mp hoverlay)]
  | some d => simp

/-- A name of the base alone that is found in the overlay as a path loses its definition. -/
theorem mergedValue_lost {k : Text} (hp : k ≠ proto) (hnone : ∀ e ∈ overlay, name e ≠ k)
    (hpath : hasPath overlay k = true) : mergedValue name hasPath overlay base k = none := by
  rw [mergedValue, has, own_definitionsArrayToHash, if_neg hp, lastNamed_eq_none.mpr hnone, hpath]
  rfl

theorem exists_map_some {l : List (Option δ)} : (∃ ds : List δ, l = ds.map some) ↔ none ∉ l := by
  constructor
  · rintro ⟨ds, rfl⟩
    simp
  · intro hnone
    induction l with
    | nil => exact ⟨[], rfl⟩
    | cons v l ih =>
      rw [List.mem_cons, not_or] at hnone
      obtain ⟨d, rfl⟩ := Option.ne_none_iff_exists'.mp (Ne.symm hnone.1)
      obtain ⟨ds, rfl⟩ := ih hnone.2
      exact ⟨d :: ds, rfl⟩

theorem PathFree.of_key (h : PathFree name hasPath overlay base) {k : Text} (hk : k ∈ allKeys name overlay base)
    (hoverlay : ∀ e ∈ overlay, name e ≠ k) : hasPath overlay k = false := by
  obtain ⟨hp, ⟨e, he, rfl⟩ | ⟨d, hd, rfl⟩⟩ := mem_allKeys.mp hk
  · exact absurd rfl (hoverlay e he)
  · exact h d hd hp hoverlay

/-- No definition is lost if and only if no name of the base alone is found as a path. -/
theorem merge_defined_iff :
    (∃ ds : List δ, mergeDefinitionArrays name hasPath overlay base = ds.map some) ↔
      PathFree name hasPath overlay base := by
  rw [exists_map_some, mem_mergeDefinitionArrays]
  constructor
  · intro hnone d hd hp hbase
    by_contra hpath
    have hk : name d ∈ allKeys name overlay base := mem_allKeys.mpr ⟨hp, .inr ⟨d, hd, rfl⟩⟩
    exact hnone ⟨name d, hk, mergedValue_lost hp hbase (by simpa using hpath)⟩
  · rintro hfree ⟨k, hk, hnone⟩
    obtain ⟨hp, hmem⟩ := mem_allKeys.mp hk
    rw [mergedValue_eq hp (hfree.of_key hk), Option.or_eq_none_iff, lastNamed_eq_none, lastNamed_eq_none] at hnone
    rcases hmem with ⟨e, he, rfl⟩ | ⟨d, hd, rfl⟩
    · exact hnone.1 e he rfl
    · exact hnone.2 d hd rfl

theorem map_fst_eq_map_name {ps : List (Text × Option δ)} {ds : List δ} (h : ps.map Prod.snd = ds.map some)
    (hname : ∀ p ∈ ps, ∀ d, p.2 = some d → name d = p.1) : ds.map name = ps.map Prod.fst := by
  induction ps generalizing ds with
  | nil =>
    cases ds with
    | nil => rfl
    | cons d ds => cases h
  | cons p ps ih =>
    cases ds with
    | nil => cases h
    | cons d ds =>
      obtain ⟨hp, hps⟩ := List.cons.inj h
      rw [List.map_cons, List.map_cons, hname p List.mem_cons_self d hp,
        ih hps fun q hq => hname q (List.mem_cons_of_mem p hq)]

theorem merged_names_nodup {ds : List δ} (h : mergeDefinitionArrays name hasPath overlay base = ds.map some) :
    (ds.map name).Nodup := by
  have hnodup := ofKeys_nodup (mergedValue name hasPath overlay base) (allKeys name overlay base)
  rw [mergeDefinitionArrays_eq] at h
  rw [map_fst_eq_map_name h, ((enumerate_perm _).map Prod.fst).nodup_iff]
  · exact hnodup
  · rintro ⟨k, v⟩ hmem d hd
    rw [(enumerate_perm _).mem_iff, mem_iff_own hnodup, own_ofKeys] at hmem
    split at hmem
    · exact mergedValue_name ((Option.some.inj hmem).trans hd)
    · cases hmem

theorem exists_named_iff {k : Text} : ((∃ d ∈ overlay, name d = k) ∨ ∃ d ∈ base, name d = k) ↔
    ∃ d, name d = k ∧ Merged name overlay base d := by
  have hsome : ((lastNamed name overlay k).or (lastNamed name base k)).isSome ↔
      (∃ d ∈ overlay, name d = k) ∨ ∃ d ∈ base, name d = k := by
    rw [← Option.ne_none_iff_isSome, ne_eq, Option.or_eq_none_iff, lastNamed_eq_none, lastNamed_eq_none]
    simp only [not_and_or, not_forall, ne_eq, not_not, exists_prop]
  rw [← hsome, Option.isSome_iff_exists]
  constructor
  · rintro ⟨d, hd⟩
    have hname : name d = k := by
      rcases Option.or_eq_some_iff.mp hd with h | ⟨_, h⟩
      · exact (lastNamed_eq_some h).2
      · exact (lastNamed_eq_some h).2
    exact ⟨d, hname, by rw [Merged, hname, hd]⟩
  · rintro ⟨d, rfl, hd⟩
    exact ⟨d, hd⟩

theorem mem_merged_iff {ds : List δ} (h : mergeDefinitionArrays name hasPath overlay base = ds.map some) (d : δ) :
    d ∈ ds ↔ Merged name overlay base d ∧ name d ≠ proto := by
  have hfree := merge_defined_iff.mp ⟨ds, h⟩
  have hmem : d ∈ ds ↔ some d ∈ mergeDefinitionArrays name hasPath overlay base := by rw [h]; simp
  rw [hmem, mem_mergeDefinitionArrays]
  constructor
  · rintro ⟨k, hk, hd⟩
    obtain rfl := mergedValue_name hd
    have hp := (mem_allKeys.mp hk).1
    rw [mergedValue_eq hp (hfree.of_key hk)] at hd
    exact ⟨hd, hp⟩
  · rintro ⟨hmerged, hp⟩
    have hk : name d ∈ allKeys name overlay base :=
      mem_allKeys.mpr ⟨hp, exists_named_iff.mpr ⟨d, rfl, hmerged⟩⟩
    exact ⟨name d, hk, by rw [mergedValue_eq hp (hfree.of_key hk)]; exact hmerged⟩

end Merged

section MergesAll

variable {δ : Type} {name : δ → Text} {hasPath : List δ → Text → Bool} {overlay base : List δ}

/-- One definition for each name of the lists, and nothing else. -/
def MergesAll (name : δ → Text) (overlay base : List δ) (results : List (Option δ)) : Prop :=
  ∃ ds : List δ, results = ds.map some ∧ (ds.map name).Nodup ∧ ∀ d, d ∈ ds ↔ Merged name overlay base d

theorem mergesAll_iff : MergesAll name overlay base (mergeDefinitionArrays name hasPath overlay base) ↔
    PathFree name hasPath overlay base ∧ ∀ d, Merged name overlay base d → name d ≠ proto := by
  constructor
  · rintro ⟨ds, hds, _, hmem⟩
    refine ⟨merge_defined_iff.mp ⟨ds, hds⟩, ?_⟩
    intro d hd
    exact ((mem_merged_iff hds d).mp ((hmem d).mpr hd)).2
  · rintro ⟨hfree, hproto⟩
    obtain ⟨ds, hds⟩ := merge_defined_iff.mpr hfree
    refine ⟨ds, hds, merged_names_nodup hds, ?_⟩
    intro d
    rw [mem_merged_iff hds]
    exact and_iff_left_of_imp (hproto d)

/-- A name is merged if and only if it occurs in one of the lists. -/
theorem merged_ne_iff {k : Text} :
    (∀ d, Merged name overlay base d → name d ≠ k) ↔ ∀ d ∈ overlay ++ base, name d ≠ k := by
  have hnamed : ¬ ((∃ d ∈ overlay, name d = k) ∨ ∃ d ∈ base, name d = k) ↔
      ¬ ∃ d, name d = k ∧ Merged name overlay base d := exists_named_iff.not
  constructor
  · intro h d hd hk
    refine hnamed.mpr ?_ ?_
    · rintro ⟨e, he, hmerged⟩
      exact h e hmerged he
    · exact (List.mem_append.mp hd).imp (fun hmem => ⟨d, hmem, hk⟩) fun hmem => ⟨d, hmem, hk⟩
  · intro h d hd hk
    refine hnamed.mp ?_ ⟨d, hk, hd⟩
    rintro (⟨e, he, hname⟩ | ⟨e, he, hname⟩)
    · exact h e (List.mem_append_left base he) hname
    · exact h e (List.mem_append_right overlay he) hname

end MergesAll

section Store

variable {δ : Type} {name : δ → Text} {S : Text → Option δ} {data : List δ}

/-- The store keeps a definition for a name; persisting replaces it. -/
def persistAll (name : δ → Text) (S : Text → Option δ) (definitions : List δ) : Text → Option δ :=
  definitions.foldl (fun S d => Function.update S (name d) (some d)) S

/-- What is read is what the store keeps. -/
structure Reads (name : δ → Text) (S : Text → Option δ) (data : List δ) : Prop where
  keyed : ∀ k d, S k = some d → name d = k
  mem : ∀ d, d ∈ data ↔ S (name d) = some d

theorem Reads.lastNamed (h : Reads name S data) (k : Text) : lastNamed name data k = S k := by
  cases hlast : DefinitionLoading.lastNamed name data k with
  | none =>
    rw [lastNamed_eq_none] at hlast
    cases hk : S k with
    | none => rfl
    | some d =>
      have hname := h.keyed k d hk
      exact absurd hname (hlast d ((h.mem d).mpr (by rw [hname, hk])))
  | some d =>
    obtain ⟨hd, rfl⟩ := lastNamed_eq_some hlast
    exact ((h.mem d).mp hd).symm

theorem persistAll_of_not_mem {k : Text} (h : ∀ d ∈ data, name d ≠ k) : persistAll name S data k = S k := by
  induction data generalizing S with
  | nil => rfl
  | cons d data ih =>
    rw [List.forall_mem_cons] at h
    rw [persistAll, List.foldl_cons, ← persistAll, ih h.2, Function.update_of_ne (Ne.symm h.1)]

theorem persistAll_of_mem (hnodup : (data.map name).Nodup) {d : δ} (hd : d ∈ data) :
    persistAll name S data (name d) = some d := by
  induction data generalizing S with
  | nil => cases hd
  | cons e data ih =>
    rw [List.map_cons, List.nodup_cons] at hnodup
    rw [persistAll, List.foldl_cons, ← persistAll]
    rcases List.mem_cons.mp hd with rfl | hd
    · rw [persistAll_of_not_mem, Function.update_self]
      intro x hx hname
      exact hnodup.1 (List.mem_map.mpr ⟨x, hx, hname⟩)
    · exact ih hnodup.2 hd

end Store

section Load

variable {δ : Type} {name : δ → Text} {hasPath : List δ → Text → Bool} {overlay base base' : List δ}
  {S : Text → Option δ}

/-- After merged definitions have been persisted, a name that is not in the overlay keeps
its definition. -/
theorem persistAll_base (hreads : Reads name S base) {ds : List δ} (hnodup : (ds.map name).Nodup)
    (hmem : ∀ d ∈ ds, Merged name overlay base d) {k : Text} (hk : lastNamed name overlay k = none) :
    persistAll name S ds k = S k := by
  by_cases hnamed : ∃ d ∈ ds, name d = k
  · obtain ⟨d, hd, rfl⟩ := hnamed
    have hmerged := hmem d hd
    rw [Merged, hk, Option.none_or, hreads.lastNamed] at hmerged
    rw [persistAll_of_mem hnodup hd, hmerged]
  · apply persistAll_of_not_mem
    intro d hd hname
    exact hnamed ⟨d, hd, hname⟩

/-- The definitions that are merged with what the store gives afterwards are the same. -/
theorem merged_again (hreads : Reads name S base) {ds : List δ} (hnodup : (ds.map name).Nodup)
    (hmem : ∀ d ∈ ds, Merged name overlay base d) (hreads' : Reads name (persistAll name S ds) base') (d : δ) :
    Merged name overlay base' d ↔ Merged name overlay base d := by
  rw [Merged, Merged, hreads.lastNamed, hreads'.lastNamed]
  cases hk : lastNamed name overlay (name d) with
  | none => rw [persistAll_base hreads hnodup hmem hk]
  | some e => rfl

theorem pathFree_again (hreads : Reads name S base) {ds : List δ} (hnodup : (ds.map name).Nodup)
    (hmem : ∀ d ∈ ds, Merged name overlay base d) (hreads' : Reads name (persistAll name S ds) base')
    (hfree : PathFree name hasPath overlay base) : PathFree name hasPath overlay base' := by
  intro d hd hp hoverlay
  have hstore := (hreads'.mem d).mp hd
  rw [persistAll_base hreads hnodup hmem (lastNamed_eq_none.mpr hoverlay)] at hstore
  exact hfree d ((hreads.mem d).mpr hstore) hp hoverlay

theorem mapM_id_eq_some {results : List (Option δ)} {ds : List δ} :
    results.mapM id = some ds ↔ results = ds.map some := by
  induction results generalizing ds with
  | nil =>
    rw [List.mapM_nil, eq_comm (a := ([] : List (Option δ))), List.map_eq_nil_iff]
    exact ⟨fun h => (Option.some.inj h).symm, fun h => congrArg some h.symm⟩
  | cons v results ih =>
    rw [List.mapM_cons]
    cases ds with
    | nil => simp [Option.bind_eq_some_iff]
    | cons d ds => simp [Option.bind_eq_some_iff, ih]

theorem defined_eq_ok (failure : Failure) {results : List (Option δ)} {ds : List δ} :
    defined failure results = .ok ds ↔ results = ds.map some := by
  rw [← mapM_id_eq_some, defined]
  cases results.mapM id <;> simp

variable {ω : Type} {self : Loader ω} {taskCatalog : List (TaskDefinition ω)}
  {graphCatalog : List (GraphDefinition ω)}

theorem load_eq_ok {tasks : List (TaskDefinition ω)} {graphs : List (GraphDefinition ω)} :
    self.load taskCatalog graphCatalog = .ok (tasks, graphs) ↔
      (∃ ds : List (TaskDefinition ω), tasks = ds.filter TaskDefinition.implements ∧
        mergeDefinitionArrays TaskDefinition.injectableName self.taskPath self.taskLibrary taskCatalog =
          ds.map some) ∧
      mergeDefinitionArrays GraphDefinition.injectableName self.graphPath self.graphLibrary graphCatalog =
        graphs.map some := by
  rw [← defined_eq_ok .assertionError]
  simp only [← defined_eq_ok .typeError, Loader.load]
  cases defined .typeError
      (mergeDefinitionArrays TaskDefinition.injectableName self.taskPath self.taskLibrary taskCatalog) with
  | error e => simp [bind, Except.bind]
  | ok ds =>
    cases defined .assertionError
        (mergeDefinitionArrays GraphDefinition.injectableName self.graphPath self.graphLibrary graphCatalog) with
    | error e => simp [bind, Except.bind]
    | ok gs => simp [bind, Except.bind, pure, Except.pure, eq_comm]

/-- The merged tasks with `implementsTask` and the merged graphs are persisted, once each; the
store has the graphs of the library and keeps its others; and so again with what it then gives. -/
def LoadsAll (self : Loader ω) (T : Text → Option (TaskDefinition ω)) (S : Text → Option (GraphDefinition ω))
    (taskCatalog : List (TaskDefinition ω)) (graphCatalog : List (GraphDefinition ω)) : Prop :=
  ∃ tasks graphs, self.load taskCatalog graphCatalog = .ok (tasks, graphs) ∧
    (tasks.map TaskDefinition.injectableName).Nodup ∧ (graphs.map GraphDefinition.injectableName).Nodup ∧
    (∀ t, t ∈ tasks ↔ Merged TaskDefinition.injectableName self.taskLibrary taskCatalog t ∧ t.implements = true) ∧
    (∀ g, g ∈ graphs ↔ Merged GraphDefinition.injectableName self.graphLibrary graphCatalog g) ∧
    (∀ k, persistAll GraphDefinition.injectableName S graphs k =
      (lastNamed GraphDefinition.injectableName self.graphLibrary k).or (S k)) ∧
    ∀ taskCatalog' graphCatalog',
      Reads TaskDefinition.injectableName (persistAll TaskDefinition.injectableName T tasks) taskCatalog' →
      Reads GraphDefinition.injectableName (persistAll GraphDefinition.injectableName S graphs) graphCatalog' →
      ∃ tasks' graphs', self.load taskCatalog' graphCatalog' = .ok (tasks', graphs') ∧
        (∀ t, t ∈ tasks' ↔ t ∈ tasks) ∧ ∀ g, g ∈ graphs' ↔ g ∈ graphs

/-- When nothing is lost: no name is found as a path, and no definition that is to be
persisted is named "__proto__". -/
structure Loadable (loader : Loader ω) (taskCatalog : List (TaskDefinition ω))
    (graphCatalog : List (GraphDefinition ω)) : Prop where
  taskPaths : PathFree TaskDefinition.injectableName loader.taskPath loader.taskLibrary taskCatalog
  graphPaths : PathFree GraphDefinition.injectableName loader.graphPath loader.graphLibrary graphCatalog
  tasks : ∀ t, Merged TaskDefinition.injectableName loader.taskLibrary taskCatalog t → t.implements = true →
    t.injectableName ≠ proto
  graphs : ∀ g ∈ loader.graphLibrary ++ graphCatalog, g.injectableName ≠ proto

theorem loadable_of_loadsAll {T : Text → Option (TaskDefinition ω)} {S : Text → Option (GraphDefinition ω)}
    (h : LoadsAll self T S taskCatalog graphCatalog) : Loadable self taskCatalog graphCatalog := by
  obtain ⟨tasks, graphs, hload, _, _, htasks, hgraphs, _⟩ := h
  obtain ⟨⟨ds, rfl, hds⟩, hgs⟩ := load_eq_ok.mp hload
  refine ⟨merge_defined_iff.mp ⟨ds, hds⟩, merge_defined_iff.mp ⟨graphs, hgs⟩, ?_, ?_⟩
  · intro t hmerged himplements
    have hmem := (htasks t).mpr ⟨hmerged, himplements⟩
    exact ((mem_merged_iff hds t).mp (List.mem_filter.mp hmem).1).2
  · refine merged_ne_iff.mp fun g hg => ?_
    exact ((mem_merged_iff hgs g).mp ((hgraphs g).mpr hg)).2

theorem Loadable.load (h : Loadable self taskCatalog graphCatalog) : ∃ tasks graphs,
    self.load taskCatalog graphCatalog = .ok (tasks, graphs) ∧
      (tasks.map TaskDefinition.injectableName).Nodup ∧ (graphs.map GraphDefinition.injectableName).Nodup ∧
      (∀ t, t ∈ tasks ↔
        Merged TaskDefinition.injectableName self.taskLibrary taskCatalog t ∧ t.implements = true) ∧
      ∀ g, g ∈ graphs ↔ Merged GraphDefinition.injectableName self.graphLibrary graphCatalog g := by
  obtain ⟨ds, hds⟩ := merge_defined_iff.mpr h.taskPaths
  obtain ⟨graphs, hgs⟩ := merge_defined_iff.mpr h.graphPaths
  refine ⟨ds.filter TaskDefinition.implements, graphs, load_eq_ok.mpr ⟨⟨ds, rfl, hds⟩, hgs⟩, ?_, ?_, ?_, ?_⟩
  · exact (List.filter_sublist.map _).nodup (merged_names_nodup hds)
  · exact merged_names_nodup hgs
  · intro t
    rw [List.mem_filter, mem_merged_iff hds]
    constructor
    · rintro ⟨⟨hmerged, _⟩, himplements⟩
      exact ⟨hmerged, himplements⟩
    · rintro ⟨hmerged, himplements⟩
      exact ⟨⟨hmerged, h.tasks t hmerged himplements⟩, himplements⟩
  · intro g
    rw [mem_merged_iff hgs]
    exact and_iff_left_of_imp (merged_ne_iff.mpr h.graphs g)

theorem loadsAll_of_loadable {T : Text → Option (TaskDefinition ω)} {S : Text → Option (GraphDefinition ω)}
    (hT : Reads TaskDefinition.injectableName T taskCatalog)
    (hS : Reads GraphDefinition.injectableName S graphCatalog) (h : Loadable self taskCatalog graphCatalog) :
    LoadsAll self T S taskCatalog graphCatalog := by
  obtain ⟨tasks, graphs, hload, htn, hgn, htasks, hgraphs⟩ := h.load
  have htmem : ∀ t ∈ tasks, Merged TaskDefinition.injectableName self.taskLibrary taskCatalog t :=
    fun t ht => ((htasks t).mp ht).1
  have hgmem : ∀ g ∈ graphs, Merged GraphDefinition.injectableName self.graphLibrary graphCatalog g :=
    fun g hg => (hgraphs g).mp hg
  refine ⟨tasks, graphs, hload, htn, hgn, htasks, hgraphs, ?_, ?_⟩
  · intro k
    cases hk : lastNamed GraphDefinition.injectableName self.graphLibrary k with
    | none => exact persistAll_base hS hgn hgmem hk
    | some g =>
      obtain ⟨_, rfl⟩ := lastNamed_eq_some hk
      have hmem : g ∈ graphs := (hgraphs g).mpr (by rw [Merged, hk]; rfl)
      exact persistAll_of_mem hgn hmem
  · intro taskCatalog' graphCatalog' hT' hS'
    have htmerged := merged_again hT htn htmem hT'
    have hgmerged := merged_again hS hgn hgmem hS'
    have hloadable : Loadable self taskCatalog' graphCatalog' := by
      refine ⟨pathFree_again hT htn htmem hT' h.taskPaths, pathFree_again hS hgn hgmem hS' h.graphPaths, ?_, ?_⟩
      · intro t hmerged
        exact h.tasks t ((htmerged t).mp hmerged)
      · refine merged_ne_iff.mp fun g hg => ?_
        exact merged_ne_iff.mpr h.graphs g ((hgmerged g).mp hg)
    obtain ⟨tasks', graphs', hload', _, _, htasks', hgraphs'⟩ := hloadable.load
    refine ⟨tasks', graphs', hload', fun t => ?_, fun g => ?_⟩
    · rw [htasks', htasks, htmerged]
    · rw [hgraphs', hgraphs, hgmerged]

/-- Definition loading merges without loss if and only if no definition is named
"__proto__" and no name that only the base has is found in the overlay as a path. -/
theorem definitions_loaded_iff {δ ω : Type} (name : δ → Text) (hasPath : List δ → Text → Bool)
    (overlay base : List δ)
    (self : Loader ω) (T : Text → Option (TaskDefinition ω)) (S : Text → Option (GraphDefinition ω))
    (taskCatalog : List (TaskDefinition ω)) (graphCatalog : List (GraphDefinition ω)) :
    (MergesAll name overlay base (mergeDefinitionArrays name hasPath overlay base) ↔
      PathFree name hasPath overlay base ∧ ∀ d ∈ overlay ++ base, name d ≠ proto) ∧
    (Reads TaskDefinition.injectableName T taskCatalog → Reads GraphDefinition.injectableName S graphCatalog →
      (LoadsAll self T S taskCatalog graphCatalog ↔ Loadable self taskCatalog graphCatalog)) := by
  constructor
  · rw [mergesAll_iff, merged_ne_iff]
  · intro hT hS
    exact ⟨loadable_of_loadsAll, loadsAll_of_loadable hT hS⟩

/-- A graph and a task of the library, and a graph that only the database has. -/
theorem definitions_loaded_iff_both :
    MergesAll id ["Graph.A".toList] ["Graph.B".toList]
        (mergeDefinitionArrays id (fun _ _ => false) ["Graph.A".toList] ["Graph.B".toList]) ∧
    LoadsAll ⟨[⟨"Graph.A".toList, [], ()⟩], [⟨"Task.T".toList, some "Task.Base".toList, ()⟩], fun _ _ => false,
        fun _ _ => false⟩
      (fun _ => none) (fun k => if k = "Graph.B".toList then some ⟨"Graph.B".toList, [()], ()⟩ else none)
      [] [⟨"Graph.B".toList, [()], ()⟩] := by
  have hboth := definitions_loaded_iff (ω := Unit) id (fun _ _ => false) ["Graph.A".toList] ["Graph.B".toList]
  refine ⟨((hboth ⟨[], [], fun _ _ => false, fun _ _ => false⟩ (fun _ => none) (fun _ => none) [] []).1).mpr
    ⟨?_, ?_⟩, ((hboth _ _ _ _ _).2 ⟨?_, ?_⟩ ⟨?_, ?_⟩).mpr ⟨?_, ?_, ?_, ?_⟩⟩
  · intro d _ _ _
    rfl
  · intro d hd
    rcases List.mem_cons.mp hd with rfl | hd
    · decide
    · obtain rfl := List.mem_singleton.mp hd
      decide
  · intro k d h
    cases h
  · intro d
    simp
  · intro k d h
    split at h
    · rename_i hk
      rw [hk, ← Option.some.inj h]
    · cases h
  · rintro ⟨k, tasks, ⟨⟩⟩
    rw [List.mem_singleton]
    constructor
    · intro hg
      have hk : k = "Graph.B".toList := congrArg GraphDefinition.injectableName hg
      rw [if_pos hk, hg]
    · intro hg
      split at hg
      · exact (Option.some.inj hg).symm
      · cases hg
  · intro d hd
    cases hd
  · intro d _ _ _
    rfl
  · intro t ht _
    refine merged_ne_iff.mpr ?_ t ht
    intro d hd
    obtain rfl := List.mem_singleton.mp hd
    decide
  · intro d hd
    rcases List.mem_cons.mp hd with rfl | hd
    · decide
    · obtain rfl := List.mem_singleton.mp hd
      decide

/-- A graph that only the database has, under a name that an object cannot have for its own. -/
theorem merge_loses_proto :
    mergeDefinitionArrays id (fun _ _ => false) [] [proto] = [] ∧ Merged id [] [proto] proto := by
  exact ⟨rfl, rfl⟩

end Load

end OnTaskGraph.DefinitionLoading
