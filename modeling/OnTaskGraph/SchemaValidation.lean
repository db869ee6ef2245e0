import OnTaskGraph.JsText

/-! `SchemaApiService.validate`: which objects of a request are checked against the
schemas that they declare. -/

namespace OnTaskGraph

namespace SchemaApi

open JsText

/-- The fields of an object are listed in the order of their enumeration. -/
inductive JsonValue
  | null
  | bool (b : Bool)
  | number (x : Decimal)
  | string (s : Text)
  | array (items : List JsonValue)
  | object (fields : List (Text × JsonValue))

namespace JsonValue

/-- `_.keys` has `key`, and the value of that property. -/
def property (key : Text) : JsonValue → Option JsonValue
  | .object fields => fields.lookup key
  | _ => none

mutual

/-- A value as the name of a property. It has none where `toString` is no function. -/
def propertyName : JsonValue → Option Text
  | .null => some "null".toList
  | .bool b => some (if b then "true".toList else "false".toList)
  | .number x => some x.toString
  | .string s => some s
  | .array items => (itemNames items).map fun names => [','].intercalate names
  | .object fields => if (fields.lookup "toString".toList).isSome then none else some "[object Object]".toList

def itemNames : List JsonValue → Option (List Text)
  | [] => some []
  | .null :: items => (itemNames items).map ([] :: ·)
  | item :: items => (propertyName item).bind fun name => (itemNames items).map (name :: ·)

end

end JsonValue

/-- The index that is written `name`. -/
def arrayIndex (name : Text) : Option Nat :=
  let i := name.foldl (fun n c => 10 * n + digitValue c) 0
  if Nat.toDigits 10 i = name then some i else none

/-- The length of an object that lodash takes for an array. -/
def arrayLength (fields : List (Text × JsonValue)) : Option Nat :=
  match fields.lookup "length".toList with
  | some (.number x) =>
    if x.value.den = 1 ∧ 0 ≤ x.value ∧ x.value ≤ 2 ^ 53 - 1 then some x.value.num.toNat else none
  | _ => none

/-- Whether `_.forEach` comes to the property `name` of an object. -/
def visits (length : Option Nat) (name : Text) : Bool :=
  match length with
  | none => true
  | some length => (arrayIndex name).any (· < length)

section Collect

variable (key : Text)

mutual

def getObjectsWithKey : JsonValue → List JsonValue
  | .object fields =>
    (if (fields.lookup key).isSome then [.object fields] else []) ++ eachField (arrayLength fields) fields
  | .array items => eachItem items
  | _ => []

def eachField (length : Option Nat) : List (Text × JsonValue) → List JsonValue
  | [] => []
  | (name, v) :: fields => (if visits length name then getObjectsWithKey v else []) ++ eachField length fields

def eachItem : List JsonValue → List JsonValue
  | [] => []
  | v :: items => getObjectsWithKey v ++ eachItem items

end

end Collect

/-- `missing` are the schemas that were not found. -/
structure ValidationResult (ε : Type) where
  valid : Bool
  error : Option ε
  missing : List Text
  valid_iff : valid = error.isNone

inductive Failure
  | rejected (reason : Text)
  | typeError
  deriving DecidableEq

/-- `schema` is what `getSchema` finds for a name. -/
structure Tv4 (σ ε : Type) where
  schema : Text → σ
  getSchema : Option Text → Except Failure σ
  validateResult : JsonValue → σ → ValidationResult ε
  getSchema_name : ∀ uri, getSchema (some uri) = .ok (schema uri)
  /-- It looks for a "#" in its argument. -/
  getSchema_undefined : getSchema none = .error .typeError

namespace Tv4

variable {σ ε : Type} (tv4 : Tv4 σ ε)

/-- `tv4.validateResult(item, tv4.getSchema(uri))` -/
def validate (item : JsonValue) (uri : Option Text) : Except Failure (Option (ValidationResult ε)) :=
  (tv4.getSchema uri).map fun schema => some (tv4.validateResult item schema)

@[simp] theorem validate_name (item : JsonValue) (uri : Text) :
    tv4.validate item (some uri) = .ok (some (tv4.validateResult item (tv4.schema uri))) := by
  rw [validate, tv4.getSchema_name]
  rfl

@[simp] theorem validate_undefined (item : JsonValue) : tv4.validate item none = .error .typeError := by
  rw [validate, tv4.getSchema_undefined]
  rfl

end Tv4

/-- `hasPath` is what `_.has` finds in a map by following a path, where the map has no
property of that name. -/
structure Service (σ ε : Type) where
  tv4 : Tv4 σ ε
  schemaNsMap : Text → Option Text
  schemaTitle : Text → Option Text
  hasPath : (Text → Option Text) → JsonValue → Bool
  /-- Schemas come from files whose names end in `.json`. -/
  entries : schemaNsMap [] = none

structure Results (ε : Type) where
  valid : Option Bool
  error : Option (List ε)
  missing : Option (List Text)

def merge {ε : Type} (result : Results ε) (item : ValidationResult ε) : Results ε where
  valid :=
    match result.valid with
    | none => some item.valid
    | some valid => some (if item.valid then valid else item.valid)
  error :=
    match item.error with
    | some e => some (result.error.getD [] ++ [e])
    | none => result.error
  missing := some (result.missing.getD [] ++ item.missing)

def odataType : Text := "@odata.type".toList

def basename (schemaName : Text) : Text := schemaName.takeWhile (· != '#')

namespace Service

variable {σ ε : Type} (service : Service σ ε)

/-- The check against the schema that the caller named. -/
def validateNamed (obj : JsonValue) (schemaName : Option Text) : Except Failure (Option (ValidationResult ε)) :=
  match schemaName.filter (· ≠ []) with
  | none => .ok none
  | some name =>
    match service.schemaNsMap (basename name) with
    | some namesp => service.tv4.validate obj (some (namesp ++ name))
    | none =>
      if service.hasPath service.schemaNsMap (.string (basename name)) then
        service.tv4.validate obj (some ("undefined".toList ++ name))
      else .error (.rejected (name ++ " is not loaded".toList))

/-- The check of an object against the schema whose title it declares. -/
def validateItem (item : JsonValue) : Except Failure (Option (ValidationResult ε)) :=
  match item.property odataType with
  | none => .ok none
  | some type =>
    match type.propertyName with
    | none => .error .typeError
    | some title =>
      match service.schemaTitle title with
      | some uri => service.tv4.validate item (some uri)
      | none => if service.hasPath service.schemaTitle type then service.tv4.validate item none else .ok none

def validate (obj : JsonValue) (schemaName : Option Text) : Except Failure (Results ε) := do
  let result ← service.validateNamed obj schemaName
  let objResults ← (getObjectsWithKey odataType obj).mapM service.validateItem
  pure (((result :: objResults).filterMap id).foldl merge ⟨none, none, none⟩)

end Service

/-! The objects of a value, and which of them the collector comes to. -/

mutual

def objects : JsonValue → List JsonValue
  | .object fields => .object fields :: objectsOfFields fields
  | .array items => objectsOfItems items
  | _ => []

def objectsOfFields : List (Text × JsonValue) → List JsonValue
  | [] => []
  | (_, v) :: fields => objects v ++ objectsOfFields fields

def objectsOfItems : List JsonValue → List JsonValue
  | [] => []
  | v :: items => objects v ++ objectsOfItems items

end

mutual

def visited : JsonValue → List JsonValue
  | .object fields => .object fields :: visitedFields (arrayLength fields) fields
  | .array items => visitedItems items
  | _ => []

def visitedFields (length : Option Nat) : List (Text × JsonValue) → List JsonValue
  | [] => []
  | (name, v) :: fields => (if visits length name then visited v else []) ++ visitedFields length fields

def visitedItems : List JsonValue → List JsonValue
  | [] => []
  | v :: items => visited v ++ visitedItems items

end

mutual

/-- The objects under a property, other than an index, of an object with a `length`. -/
def skipped : JsonValue → List JsonValue
  | .object fields => skippedFields (arrayLength fields) fields
  | .array items => skippedItems items
  | _ => []

def skippedFields (length : Option Nat) : List (Text × JsonValue) → List JsonValue
  | [] => []
  | (name, v) :: fields => (if visits length name then skipped v else objects v) ++ skippedFields length fields

def skippedItems : List JsonValue → List JsonValue
  | [] => []
  | v :: items => skipped v ++ skippedItems items

end

section Objects

mutual

theorem getObjectsWithKey_eq (key : Text) :
    ∀ v, getObjectsWithKey key v = (visited v).filter fun item => (item.property key).isSome
  | .object fields => by
    have hself : (JsonValue.object fields).property key = fields.lookup key := rfl
    rw [getObjectsWithKey, visited, List.filter_cons, eachField_eq key (arrayLength fields) fields, hself]
    split_ifs <;> rfl
  | .array items => eachItem_eq key items
  | .null | .bool _ | .number _ | .string _ => rfl

theorem eachField_eq (key : Text) (length : Option Nat) : ∀ fields,
    eachField key length fields = (visitedFields length fields).filter fun item => (item.property key).isSome
  | [] => rfl
  | (name, v) :: fields => by
    rw [eachField, visitedFields, List.filter_append, ← eachField_eq key length fields]
    split_ifs
    · rw [getObjectsWithKey_eq key v]
    · rfl

theorem eachItem_eq (key : Text) : ∀ items,
    eachItem key items = (visitedItems items).filter fun item => (item.property key).isSome
  | [] => rfl
  | v :: items => by
    rw [eachItem, visitedItems, List.filter_append, getObjectsWithKey_eq key v, eachItem_eq key items]

end

theorem append_perm_of_perm {α : Type} {as bs cs as₁ as₂ bs₁ bs₂ : List α} (ha : as.Perm (as₁ ++ as₂))
    (hb : bs.Perm (bs₁ ++ bs₂)) (h : cs = as ++ bs) : cs.Perm (as₁ ++ bs₁ ++ (as₂ ++ bs₂)) := by
  refine h ▸ (ha.append hb).trans ?_
  simp only [List.append_assoc]
  exact (List.perm_append_comm_assoc _ _ _).append_left as₁

mutual

theorem objects_perm : ∀ v, (objects v).Perm (visited v ++ skipped v)
  | .object fields => (objectsOfFields_perm (arrayLength fields) fields).cons _
  | .array items => objectsOfItems_perm items
  | .null | .bool _ | .number _ | .string _ => .nil

theorem objectsOfFields_perm (length : Option Nat) : ∀ fields,
    (objectsOfFields fields).Perm (visitedFields length fields ++ skippedFields length fields)
  | [] => .nil
  | (name, v) :: fields => by
    rw [visitedFields, skippedFields]
    refine append_perm_of_perm ?_ (objectsOfFields_perm length fields) rfl
    split_ifs
    · exact objects_perm v
    · exact .refl _

theorem objectsOfItems_perm : ∀ items, (objectsOfItems items).Perm (visitedItems items ++ skippedItems items)
  | [] => .nil
  | v :: items => by
    rw [visitedItems, skippedItems]
    exact append_perm_of_perm (objects_perm v) (objectsOfItems_perm items) rfl

end

end Objects

section Merge

variable {ε : Type}

theorem merge_error (items : List (ValidationResult ε)) (r : Results ε) :
    (items.foldl merge r).error =
      if items.filterMap (·.error) = [] then r.error
      else some (r.error.getD [] ++ items.filterMap (·.error)) := by
  induction items generalizing r with
  | nil => rfl
  | cons item items ih =>
    rw [List.foldl_cons, ih]
    cases h : item.error with
    | none => simp [merge, h]
    | some e =>
      by_cases hnil : items.filterMap (·.error) = []
      · simp [merge, h, hnil]
      · simp [merge, h, hnil]

theorem merge_valid (items : List (ValidationResult ε)) (r : Results ε) :
    (items.foldl merge r).valid = some false ↔ r.valid = some false ∨ items.filterMap (·.error) ≠ [] := by
  induction items generalizing r with
  | nil => simp
  | cons item items ih =>
    rw [List.foldl_cons, ih]
    have hitem := item.valid_iff
    cases h : item.error with
    | none =>
      rw [h] at hitem
      cases hr : r.valid <;> simp [merge, h, hitem, hr]
    | some e =>
      rw [h] at hitem
      cases hr : r.valid <;> simp [merge, h, hitem, hr]

end Merge

/-- A name that the caller gives belongs to a schema that has been loaded. -/
structure SchemaName {σ ε : Type} (service : Service σ ε) where
  name : Text
  loaded : (service.schemaNsMap (basename name)).isSome = true

namespace Service

variable {σ ε : Type} (service : Service σ ε)

/-- The schema whose title an object declares. -/
def declaredSchema (item : JsonValue) : Option Text :=
  ((item.property odataType).bind JsonValue.propertyName).bind service.schemaTitle

/-- What tv4 has against an object by the schema that it declares. -/
def rejection (item : JsonValue) : Option ε :=
  (service.declaredSchema item).bind fun uri => (service.tv4.validateResult item (service.tv4.schema uri)).error

def namedRejection (obj : JsonValue) (schemaName : Option (SchemaName service)) : Option ε :=
  schemaName.bind fun s => (service.schemaNsMap (basename s.name)).bind fun namesp =>
    (service.tv4.validateResult obj (service.tv4.schema (namesp ++ s.name))).error

def rejections (obj : JsonValue) (schemaName : Option (SchemaName service)) : List ε :=
  (service.namedRejection obj schemaName).toList ++ (objects obj).filterMap service.rejection

/-- The type that an object declares is no name of a property, or `_.has` finds it in
the titles only by following a path. -/
def badType (item : JsonValue) : Bool :=
  match item.property odataType with
  | none => false
  | some type =>
    match type.propertyName with
    | none => true
    | some title => (service.schemaTitle title).isNone && service.hasPath service.schemaTitle type

end Service

/-- The result tells of every rejection once. -/
structure Complete {ε : Type} (rejections : List ε) (r : Results ε) : Prop where
  error : r.error.isSome ↔ rejections ≠ []
  valid : r.valid = some false ↔ rejections ≠ []
  errors : (r.error.getD []).Perm rejections

section Validate

variable {σ ε : Type} {service : Service σ ε}

theorem validateItem_of_badType {item : JsonValue} (h : service.badType item = true) :
    ∃ e, service.validateItem item = .error e := by
  unfold Service.badType at h
  unfold Service.validateItem
  split at h
  · simp at h
  · split at h
    · exact ⟨_, rfl⟩
    · rw [Bool.and_eq_true, Option.isNone_iff_eq_none] at h
      simp [h]

theorem validateItem_of_goodType {item : JsonValue} (h : service.badType item = false) :
    service.validateItem item = .ok ((service.declaredSchema item).map fun uri =>
      service.tv4.validateResult item (service.tv4.schema uri)) := by
  unfold Service.badType at h
  unfold Service.validateItem Service.declaredSchema
  cases htype : item.property odataType with
  | none => rfl
  | some type =>
    simp only [htype] at h
    cases hname : type.propertyName with
    | none => simp [hname] at h
    | some title =>
      simp only [hname] at h
      cases huri : service.schemaTitle title with
      | some uri => simp [hname, huri]
      | none =>
        simp only [huri, Option.isNone_none, Bool.true_and] at h
        simp [hname, huri, h]

theorem mapM_validateItem {items : List JsonValue} (h : ∀ item ∈ items, service.badType item = false) :
    items.mapM service.validateItem = .ok (items.map fun item => (service.declaredSchema item).map fun uri =>
      service.tv4.validateResult item (service.tv4.schema uri)) := by
  induction items with
  | nil => rfl
  | cons item items ih =>
    rw [List.mapM_cons, validateItem_of_goodType (h item List.mem_cons_self),
      ih fun i hi => h i (List.mem_cons_of_mem _ hi)]
    rfl

theorem mapM_validateItem_error {items : List JsonValue} (h : ∃ item ∈ items, service.badType item = true) :
    ∃ e, items.mapM service.validateItem = .error e := by
  induction items with
  | nil => simp at h
  | cons item items ih =>
    rw [List.mapM_cons]
    cases hitem : service.validateItem item with
    | error e => exact ⟨e, rfl⟩
    | ok r =>
      obtain ⟨i, hi, hbad⟩ := h
      rcases List.mem_cons.mp hi with rfl | hi
      · obtain ⟨e, he⟩ := validateItem_of_badType hbad
        simp [he] at hitem
      · obtain ⟨e, he⟩ := ih ⟨i, hi, hbad⟩
        exact ⟨e, by rw [he]; rfl⟩

theorem SchemaName.validateNamed (obj : JsonValue) (schemaName : Option (SchemaName service)) :
    ∃ result, service.validateNamed obj (schemaName.map (·.name)) = .ok result ∧
      result.bind (·.error) = service.namedRejection obj schemaName := by
  cases schemaName with
  | none => exact ⟨none, rfl, rfl⟩
  | some s =>
    obtain ⟨namesp, hns⟩ := Option.isSome_iff_exists.mp s.loaded
    have hne : s.name ≠ [] := by
      intro hnil
      simp [hnil, basename, service.entries] at hns
    have hname : (some s.name).filter (· ≠ []) = some s.name := Option.filter_some_pos (by simpa using hne)
    refine ⟨some (service.tv4.validateResult obj (service.tv4.schema (namesp ++ s.name))), ?_, ?_⟩
    · simp only [Service.validateNamed, Option.map_some, hname, hns, Tv4.validate_name]
    · simp [Service.namedRejection, hns]

theorem rejection_of_no_property {item : JsonValue} (h : (item.property odataType).isSome = false) :
    service.rejection item = none := by
  have hnone : item.property odataType = none := by simpa using h
  simp [Service.rejection, Service.declaredSchema, hnone]

theorem collected_errors (items : List JsonValue) :
    (((items.filter fun item => (item.property odataType).isSome).map fun item =>
      (service.declaredSchema item).map fun uri =>
        service.tv4.validateResult item (service.tv4.schema uri)).filterMap id).filterMap (·.error) =
      items.filterMap service.rejection := by
  induction items with
  | nil => rfl
  | cons item items ih =>
    by_cases hitem : (item.property odataType).isSome = true
    · rw [List.filter_cons_of_pos (by simpa using hitem), List.map_cons, List.filterMap_cons, List.filterMap_cons]
      cases huri : service.declaredSchema item with
      | none => simpa [Service.rejection, huri] using ih
      | some uri =>
        cases herror : (service.tv4.validateResult item (service.tv4.schema uri)).error with
        | none => simpa [Service.rejection, huri, herror] using ih
        | some e => simpa [Service.rejection, huri, herror] using ih
    · rw [List.filter_cons_of_neg (by simpa using hitem), ih, List.filterMap_cons,
        rejection_of_no_property (by simpa using hitem)]

/-- Without a bad type on its way the check returns, with the rejections it has found. -/
theorem validate_found (obj : JsonValue) (schemaName : Option (SchemaName service))
    (h : ∀ item ∈ visited obj, service.badType item = false) :
    ∃ r, service.validate obj (schemaName.map (·.name)) = .ok r ∧
      Complete
        ((service.namedRejection obj schemaName).toList ++ (visited obj).filterMap service.rejection) r := by
  obtain ⟨result, hresult, hnamed⟩ := SchemaName.validateNamed obj schemaName
  have hmap : (getObjectsWithKey odataType obj).mapM service.validateItem = .ok _ :=
    mapM_validateItem fun item hitem => by
      rw [getObjectsWithKey_eq] at hitem
      exact h item (List.mem_of_mem_filter hitem)
  let items := (result :: (getObjectsWithKey odataType obj).map fun item =>
    (service.declaredSchema item).map fun uri =>
      service.tv4.validateResult item (service.tv4.schema uri)).filterMap id
  have hitems : items.filterMap (·.error) =
      (service.namedRejection obj schemaName).toList ++ (visited obj).filterMap service.rejection := by
    have hcollected : _ = (visited obj).filterMap service.rejection := collected_errors (visited obj)
    rw [← getObjectsWithKey_eq] at hcollected
    rw [← hcollected, ← hnamed]
    cases result with
    | none => rfl
    | some r =>
      cases hr : r.error with
      | none => simp [items, hr]
      | some e => simp [items, hr]
  refine ⟨items.foldl merge ⟨none, none, none⟩, ?_, ?_⟩
  · simp only [Service.validate, hresult, hmap, bind, Except.bind, pure, Except.pure, items]
  · rw [← hitems]
    have herror := merge_error items ⟨none, none, none⟩
    have hvalid := merge_valid items ⟨none, none, none⟩
    refine ⟨?_, by simpa using hvalid, ?_⟩
    · by_cases hnil : items.filterMap (·.error) = []
      · simp [herror, hnil]
      · simp [herror, hnil]
    · by_cases hnil : items.filterMap (·.error) = []
      · simp [herror, hnil]
      · simp [herror, hnil]

theorem rejections_perm (obj : JsonValue) (schemaName : Option (SchemaName service)) :
    (service.rejections obj schemaName).Perm
      ((service.namedRejection obj schemaName).toList ++ (visited obj).filterMap service.rejection ++
        (skipped obj).filterMap service.rejection) := by
  rw [Service.rejections, List.append_assoc, ← List.filterMap_append]
  exact ((objects_perm obj).filterMap _).append_left _

/-- `validate` tells of every rejection just if it meets no bad type and no object that
it skips is rejected. -/
theorem validate_complete_iff (service : Service σ ε) (obj : JsonValue)
    (schemaName : Option (SchemaName service)) :
    (∃ r, service.validate obj (schemaName.map (·.name)) = .ok r ∧
      Complete (service.rejections obj schemaName) r) ↔
      (∀ item ∈ visited obj, service.badType item = false) ∧
        ∀ item ∈ skipped obj, service.rejection item = none := by
  have hperm := rejections_perm obj schemaName
  constructor
  · rintro ⟨r, hr, hcomplete⟩
    have hgood : ∀ item ∈ visited obj, service.badType item = false := by
      by_contra hbad
      push Not at hbad
      obtain ⟨item, hitem, hbad⟩ := hbad
      have hcollected : item ∈ getObjectsWithKey odataType obj := by
        rw [getObjectsWithKey_eq]
        refine List.mem_filter.mpr ⟨hitem, ?_⟩
        cases htype : item.property odataType with
        | none => simp [Service.badType, htype] at hbad
        | some type => rfl
      obtain ⟨e, he⟩ := mapM_validateItem_error ⟨item, hcollected, by simpa using hbad⟩
      obtain ⟨result, hresult, _⟩ := SchemaName.validateNamed obj schemaName
      simp [Service.validate, hresult, he, bind, Except.bind] at hr
    refine ⟨hgood, ?_⟩
    obtain ⟨r', hr', hfound⟩ := validate_found obj schemaName hgood
    obtain rfl : r = r' := Except.ok.inj (hr.symm.trans hr')
    have hlength := (hfound.errors.symm.trans (hcomplete.errors.trans hperm)).length_eq
    have hnil : (skipped obj).filterMap service.rejection = [] := by
      simp only [List.length_append] at hlength
      exact List.eq_nil_of_length_eq_zero (by omega)
    exact List.filterMap_eq_nil_iff.mp hnil
  · rintro ⟨hgood, hskipped⟩
    obtain ⟨r, hr, hfound⟩ := validate_found obj schemaName hgood
    rw [List.filterMap_eq_nil_iff.mpr hskipped, List.append_nil] at hperm
    have hnil : service.rejections obj schemaName = [] ↔
        (service.namedRejection obj schemaName).toList ++ (visited obj).filterMap service.rejection = [] :=
      ⟨fun h => (h ▸ hperm).symm.eq_nil, fun h => (h ▸ hperm).eq_nil⟩
    exact ⟨r, hr, ⟨hfound.error.trans (not_congr hnil).symm, hfound.valid.trans (not_congr hnil).symm,
      hfound.errors.trans hperm.symm⟩⟩

/-- An object that declares the title of a schema which rejects it. -/
def declaring : JsonValue := .object [(odataType, .string "Volume".toList)]

/-- `length` hides the other properties from `_.forEach`. -/
def shadowing : JsonValue := .object [("length".toList, .number ⟨false, 0, 0⟩), ("volume".toList, declaring)]

def rejecting : Tv4 Unit Unit where
  schema _ := ()
  getSchema
    | some _ => .ok ()
    | none => .error .typeError
  validateResult _ _ := ⟨false, some (), [], rfl⟩
  getSchema_name _ := rfl
  getSchema_undefined := rfl

def strict : Service Unit Unit where
  tv4 := rejecting
  schemaNsMap _ := none
  schemaTitle title := if title = "Volume".toList then some "/api/2.0/schemas/volume.json".toList else none
  hasPath _ _ := false
  entries := rfl

theorem validate_skips : (∃ item ∈ objects shadowing, (strict.rejection item).isSome = true) ∧
    ∃ r, strict.validate shadowing none = .ok r ∧ r.error = none ∧
      ¬ Complete (strict.rejections shadowing none) r := by
  have hmem : declaring ∈ objects shadowing := by simp [shadowing, declaring, objects, objectsOfFields]
  have hrejected : strict.rejection declaring = some () := by decide
  have hlength :
      arrayLength [("length".toList, .number ⟨false, 0, 0⟩), ("volume".toList, declaring)] = some 0 := by
    have hle : (0 : Rat) ≤ 2 ^ 53 - 1 := by decide +kernel
    simp [arrayLength, Decimal.value, hle]
  have hnone : getObjectsWithKey odataType shadowing = [] := by
    rw [shadowing, getObjectsWithKey, hlength]
    rfl
  refine ⟨⟨declaring, hmem, by simp [hrejected]⟩, ⟨none, none, none⟩, ?_, rfl, fun h => ?_⟩
  · rw [Service.validate, hnone]
    rfl
  · have hne : strict.rejections shadowing none ≠ [] := by
      refine List.append_ne_nil_of_right_ne_nil _ fun hnil => ?_
      simp [List.filterMap_eq_nil_iff.mp hnil declaring hmem] at hrejected
    simpa using h.error.mpr hne

end Validate

end SchemaApi

end OnTaskGraph
